import Doca.SimpleFwd.FlowMap

/-!
# Aging of active flows

A run of the flow table together with its traffic: the clock, which does not go back; for every entry the
time of its creation or last lookup, its hardware counter and the time of the last packet counted there;
and the time of the last sweep that read the counter. All queries succeed.

* `Watch`, `watchStep` — the calls and the packets that the hardware counts.

Principal results: `active_kept_iff`; `active_removed` — a run in which a flow is removed one second
after a packet, with an age of five seconds.
-/

namespace Doca.SimpleFwd

open Doca.Lib Function List UInt64

/-! ## Traffic -/

structure Watch where
  ft : Ft
  clock : UInt64
  touched : Nat → UInt64
  total : Nat → Nat
  lastPkt : Nat → Option UInt64
  lastRead : Nat → Option UInt64

def Watch.start (ft : Ft) : Watch := ⟨ft, 0, fun _ => 0, fun _ => 0, fun _ => none, fun _ => none⟩

def Watch.query (s : Watch) (id : Nat) : Reading := ⟨.ofNat (s.total id), true⟩

inductive WatchEv where
  | packet (pinfo : PktInfo) (env : PacketEnv)
  | find (pinfo : PktInfo) (now : UInt64)
  | count (i id : Nat) (now : UInt64)
  | sweep (i : Nat) (t : UInt64)
  | destroy (e : Entry)

variable (hz : UInt64)

def findTouch (ft : Ft) (pinfo : PktInfo) (now : UInt64) : Option (Nat × UInt64) :=
  match (ftFind hz ft pinfo now).1 with
  | .ok e => some (e.id, now)
  | .error _ => none

def packetTouch (ft : Ft) (pinfo : PktInfo) (env : PacketEnv) : Option (Nat × UInt64) :=
  if needNewFt pinfo then
    match findTouch hz ft pinfo env.now with
    | some p => some p
    | none => (handleNewFlow hz ft pinfo env).2.1.map fun e => (e.id, env.later)
  else none

def touch (p : Option (Nat × UInt64)) (touched : Nat → UInt64) : Nat → UInt64 :=
  match p with
  | some (id, now) => Function.update touched id now
  | none => touched

def readBy (t : UInt64) (query : Nat → Reading) : List Entry → List Nat
  | [] => []
  | node :: rest =>
    if node.Expired t then
      node.id :: if (updateCounter (query node.id) node).1 then readBy t query rest else []
    else readBy t query rest

def watchStep (s : Watch) : WatchEv → Option Watch
  | .packet pinfo env =>
    if s.clock ≤ env.now ∧ env.now ≤ env.later then
      some { s with
        ft := (handlePacket hz s.ft pinfo env).2
        clock := env.later
        touched := touch (packetTouch hz s.ft pinfo env) s.touched }
    else none
  | .find pinfo now =>
    if s.clock ≤ now then
      some { s with
        ft := (ftFind hz s.ft pinfo now).2
        clock := now
        touched := touch (findTouch hz s.ft pinfo now) s.touched }
    else none
  | .count i id now =>
    if s.clock ≤ now ∧ (∃ e ∈ s.ft.buckets i, e.id = id) ∧ s.total id + 1 < 2 ^ 64 then
      some { s with
        clock := now
        total := Function.update s.total id (s.total id + 1)
        lastPkt := Function.update s.lastPkt id (some now) }
    else none
  | .sweep i t =>
    if s.clock ≤ t ∧ i < s.ft.size.toNat then
      some { s with
        ft := (agingFtEntry s.ft i t s.query).2
        clock := t
        lastRead := fun id =>
          if id ∈ readBy t s.query (s.ft.buckets i) then some t else s.lastRead id }
    else none
  | .destroy e => if s.ft.Live e then some { s with ft := ftDestroyEntry s.ft e } else none

/-! ## What an entry says about its traffic -/

/-- The expiration time is the age after the last touch; the last counter is not ahead of the counter;
once it has caught up, the last packet was read by a sweep. -/
structure Timed (s : Watch) (e : Entry) : Prop where
  expires : e.ageSec ≠ 0 → e.expiration = s.touched e.id + hz * e.ageSec.toUInt64
  counter : e.lastCounter.toNat ≤ s.total e.id
  read : ∀ τ, s.lastPkt e.id = some τ → e.lastCounter.toNat = s.total e.id →
    ∃ r, s.lastRead e.id = some r ∧ τ ≤ r

structure WatchInv (s : Watch) : Prop where
  table : s.ft.view.Inv
  timed : ∀ i, ∀ e ∈ s.ft.buckets i, Timed hz s e
  fresh : ∀ id, additions s.ft.log ≤ id → s.total id = 0 ∧ s.lastPkt id = none
  pktLe : ∀ id τ, s.lastPkt id = some τ → τ ≤ s.clock
  totalLt : ∀ id, s.total id < 2 ^ 64

variable {hz : UInt64} {s : Watch}

variable {s' : Watch} {e : Entry}

def Watch.after (s : Watch) (ft : Ft) (clock : UInt64) (touched : Nat → UInt64) : Watch :=
  { s with ft := ft, clock := clock, touched := touched }

variable {ft' : Ft} {c : UInt64} {touched : Nat → UInt64}

theorem Timed.after (h : Timed hz s e) (ht : touched e.id = s.touched e.id) :
    Timed hz (s.after ft' c touched) e :=
  ⟨fun hage => (h.expires hage).trans (by rw [← ht]; rfl), h.counter, h.read⟩

/-! ### Writing, linking and sweeping -/

variable {ft : Ft} {x : Entry} {i : Nat}

theorem mem_write_iff : x ∈ (ft.write e).buckets i ↔
      (x = e ∧ ∃ y ∈ ft.buckets i, y.id = e.id) ∨ (x ∈ ft.buckets i ∧ x.id ≠ e.id) := by
  show x ∈ (ft.buckets i).map _ ↔ _
  rw [mem_map]
  constructor
  · rintro ⟨y, hy, rfl⟩
    split
    · rename_i hid
      exact .inl ⟨rfl, y, hy, hid⟩
    · rename_i hid
      exact .inr ⟨hy, hid⟩
  · rintro (⟨rfl, y, hy, hid⟩ | ⟨hx, hid⟩)
    · exact ⟨y, hy, if_pos hid⟩
    · exact ⟨x, hx, if_neg hid⟩

theorem forall_write {P : Entry → Prop} (he : P e) (hother : ∀ i, ∀ x ∈ ft.buckets i, x.id ≠ e.id → P x) :
    ∀ i, ∀ x ∈ (ft.write e).buckets i, P x := by
  intro i x hx
  rcases mem_write_iff.mp hx with ⟨rfl, -⟩ | ⟨hx, hid⟩
  · exact he
  · exact hother i x hx hid

variable {pinfo : PktInfo}

theorem mem_link_iff {newE : Entry} : x ∈ (ft.link pinfo newE).buckets i ↔
      (i = ft.idx pinfo.rssHash ∧ x = newE) ∨ x ∈ ft.buckets i := by
  show x ∈ update ft.buckets _ _ i ↔ _
  by_cases hi : i = ft.idx pinfo.rssHash
  · subst hi
    simp
  · simp [hi]

variable {t : UInt64}

theorem mem_agingLoop {query : Nat → Reading} {l : List Entry} (h : x ∈ (agingLoop t query l).1) :
    ∃ e ∈ l, x = e ∨ (e.id ∈ readBy t query l ∧ x = (updateCounter (query e.id) e).2) := by
  induction l with
  | nil => cases h
  | cons node rest ih =>
    unfold agingLoop at h
    unfold readBy
    by_cases hexp : node.Expired t
    · rw [if_pos hexp] at h ⊢
      dsimp only at h
      split at h
      · rename_i hup
        rw [if_pos hup]
        rcases List.mem_cons.mp h with rfl | h
        · exact ⟨node, mem_cons_self, .inr ⟨mem_cons_self, rfl⟩⟩
        · obtain ⟨e, he, heq | ⟨hread, heq⟩⟩ := ih h
          · exact ⟨e, mem_cons_of_mem _ he, .inl heq⟩
          · exact ⟨e, mem_cons_of_mem _ he, .inr ⟨mem_cons_of_mem _ hread, heq⟩⟩
      · rcases List.mem_cons.mp h with rfl | h
        · exact ⟨node, mem_cons_self, .inr ⟨mem_cons_self, rfl⟩⟩
        · exact ⟨x, mem_cons_of_mem _ h, .inl rfl⟩
    · rw [if_neg hexp] at h ⊢
      rcases List.mem_cons.mp h with rfl | h
      · exact ⟨x, mem_cons_self, .inl rfl⟩
      · obtain ⟨e, he, hrest⟩ := ih h
        exact ⟨e, mem_cons_of_mem _ he, hrest⟩

theorem mem_agingFtEntry {j : Nat} {query : Nat → Reading}
    (h : x ∈ (agingFtEntry ft i t query).2.buckets j) :
    ∃ e ∈ ft.buckets j, x = e ∨
      (e.id ∈ readBy t query (ft.buckets i) ∧ x = (updateCounter (query e.id) e).2) := by
  have hloop : x ∈ update ft.buckets i (agingLoop t query (ft.buckets i)).1 j := by
    unfold agingFtEntry at h
    dsimp only at h
    split at h
    · exact mem_of_mem_filter h
    · exact h
  by_cases hj : j = i
  · subst hj
    rw [update_self] at hloop
    exact mem_agingLoop hloop
  · rw [update_of_ne hj] at hloop
    exact ⟨x, hloop, .inl rfl⟩

/-! ## Runs -/

theorem updateExpiration_fields (hz now : UInt64) (e : Entry) :
    (updateExpiration hz now e).ageSec = e.ageSec ∧
      (updateExpiration hz now e).lastCounter = e.lastCounter ∧
      (e.ageSec ≠ 0 → (updateExpiration hz now e).expiration = now + hz * e.ageSec.toUInt64) := by
  unfold updateExpiration
  split
  · exact ⟨rfl, rfl, fun _ => rfl⟩
  · rename_i hage
    exact ⟨rfl, rfl, fun hne => absurd hne hage⟩

variable {now : UInt64}

theorem timed_found (h : WatchInv hz s) {node : Entry} (hnode : node ∈ s.ft.buckets i) :
    ∀ i, ∀ e ∈ (s.ft.write (updateExpiration hz now node)).buckets i,
      Timed hz (s.after ft' c (update s.touched node.id now)) e := by
  have hold := h.timed i node hnode
  obtain ⟨hage, hcnt, hexp⟩ := updateExpiration_fields hz now node
  refine forall_write ⟨?_, ?_, ?_⟩ fun j x hx hid => ?_
  · rw [hage, updateExpiration_id]
    show _ → _ = update s.touched node.id now node.id + _
    rw [update_self]
    exact hexp
  · rw [hcnt, updateExpiration_id]
    exact hold.counter
  · rw [hcnt, updateExpiration_id]
    exact hold.read
  · rw [updateExpiration_id] at hid
    exact (h.timed j x hx).after (update_of_ne hid ..)

theorem timed_new (h : WatchInv hz s) {env : PacketEnv}
    (hnew : (handleNewFlow hz s.ft pinfo env).2.1 = some e) :
    ∀ i, ∀ x ∈ (handleNewFlow hz s.ft pinfo env).2.2.buckets i,
      Timed hz (s.after ft' c (update s.touched e.id env.later)) x := by
  rcases handleNewFlow_cases hz s.ft pinfo env with
    heq | ⟨k, e1, -, he1, ⟨-, heq⟩ | ⟨handle, ageSec, e', -, he', heq⟩⟩
  · rw [heq] at hnew
    cases hnew
  · rw [heq] at hnew
    cases hnew
  · rw [heq] at hnew ⊢
    cases hnew
    obtain ⟨hage, hcnt, hexp⟩ := updateExpiration_fields hz env.later { e1 with ageSec := ageSec }
    have hid1 : e1.id = additions s.ft.log := by rw [he1]; rfl
    have hid : e.id = additions s.ft.log := by
      rw [he', ← hid1]
      exact updateExpiration_id hz env.later { e1 with ageSec := ageSec }
    obtain ⟨hzero, hnone⟩ := h.fresh e.id hid.ge
    refine forall_write ⟨?_, ?_, ?_⟩ fun j x hx hne => ?_
    · show _ → _ = update s.touched e.id env.later e.id + _
      rw [update_self, he']
      intro hne
      show (updateExpiration hz env.later { e1 with ageSec := ageSec }).expiration = _
      have hne : ageSec ≠ 0 := fun hz' => hne (hage.trans hz')
      rw [hexp hne]
      show _ = env.later + hz * (updateExpiration hz env.later { e1 with ageSec := ageSec }).ageSec.toUInt64
      rw [hage]
    · have hlast : e.lastCounter = 0 := by
        rw [he']
        refine hcnt.trans ?_
        rw [he1]
        rfl
      rw [hlast]
      exact Nat.zero_le _
    · show ∀ τ, s.lastPkt e.id = some τ → _
      rw [hnone]
      exact nofun
    · -- neither of the two writes nor the link concerns the other entries
      have hlink : x ∈ (s.ft.link pinfo (newEntry hz s.ft pinfo k env.now)).buckets j := by
        rcases mem_write_iff.mp hx with ⟨rfl, -⟩ | ⟨hx, -⟩
        · exact absurd (hid1.trans hid.symm) hne
        · exact hx
      have hmem : x ∈ s.ft.buckets j := by
        rcases mem_link_iff.mp hlink with ⟨-, rfl⟩ | hx
        · exact absurd hid.symm hne
        · exact hx
      exact (h.timed j x hmem).after (update_of_ne hne ..)

theorem timed_countPkt (h : ∀ i, ∀ x ∈ ft.buckets i, Timed hz s' x) (he : e ∈ ft.buckets i) :
    ∀ i, ∀ x ∈ (ft.countPkt e).buckets i, Timed hz s' x := by
  obtain ⟨hexp, hcnt, hread⟩ := h i e he
  exact forall_write ⟨hexp, hcnt, hread⟩ fun j x hx _ => h j x hx

section

variable (h : WatchInv hz s)

include h

theorem timed_packet {env : PacketEnv} : ∀ i, ∀ e ∈ (handlePacket hz s.ft pinfo env).2.buckets i,
      Timed hz (s.after ft' c (touch (packetTouch hz s.ft pinfo env) s.touched)) e := by
  have hsame : ∀ i, ∀ e ∈ s.ft.buckets i, Timed hz (s.after ft' c s.touched) e :=
    fun i e he => (h.timed i e he).after rfl
  unfold handlePacket packetTouch findTouch
  split
  · rename_i hneed
    rcases ftFind_cases hz s.ft pinfo env.now with ⟨err, heq, hnone⟩ | ⟨k, node, -, hnode, heq⟩
    · rw [heq]
      dsimp only
      have hmem := (@view_handleNewFlow hz s.ft pinfo env h.table hnone).2
      have hclean := @handleNewFlow_failed hz s.ft pinfo env fun i x hx =>
        h.table.addedLt (h.table.slot (mem_view hx)).choose_spec.1
      rcases hnew : (handleNewFlow hz s.ft pinfo env).2.1 with _ | e
      · rcases hall : handleNewFlow hz s.ft pinfo env with ⟨r, o, ft'⟩
        rw [hall] at hnew hclean
        cases hnew
        intro i e he
        exact hsame i e (hclean rfl i ▸ he)
      · have htimed : ∀ i, ∀ x ∈ _, Timed hz (s.after ft' c _) x := timed_new h hnew
        have he := hmem e hnew
        rcases hall : handleNewFlow hz s.ft pinfo env with ⟨r, o, ft'⟩
        rw [hall] at hnew htimed he
        cases hnew
        exact timed_countPkt htimed he
    · rw [heq]
      dsimp only
      have hnode := (node_eq_some hnode).1
      rw [updateExpiration_id]
      exact timed_countPkt (timed_found h hnode) (mem_write hnode (updateExpiration_id ..).symm)
  · exact hsame

theorem timed_find : ∀ i, ∀ e ∈ (ftFind hz s.ft pinfo now).2.buckets i,
    Timed hz (s.after ft' c (touch (findTouch hz s.ft pinfo now) s.touched)) e := by
  unfold findTouch
  rcases ftFind_cases hz s.ft pinfo now with ⟨err, heq, -⟩ | ⟨k, node, -, hnode, heq⟩
  · rw [heq]
    exact fun i e he => (h.timed i e he).after rfl
  · rw [heq]
    dsimp only
    rw [updateExpiration_id]
    exact timed_found h (node_eq_some hnode).1

theorem timed_count {id : Nat} : ∀ i, ∀ e ∈ s.ft.buckets i, Timed hz { s with
    clock := now
    total := update s.total id (s.total id + 1)
    lastPkt := update s.lastPkt id (some now) } e := by
  intro i e he
  obtain ⟨hexp, hle, hread⟩ := h.timed i e he
  by_cases hid : e.id = id
  · subst hid
    refine ⟨hexp, ?_, fun τ _ heq => ?_⟩
    · dsimp only
      rw [update_self]
      omega
    · dsimp only at heq
      rw [update_self] at heq
      omega
  · refine ⟨hexp, ?_, ?_⟩
    · dsimp only
      rwa [update_of_ne hid]
    · dsimp only
      rwa [update_of_ne hid, update_of_ne hid]

theorem timed_sweep (ht : s.clock ≤ t) :
    ∀ j, ∀ e ∈ (agingFtEntry s.ft i t s.query).2.buckets j, Timed hz { s with
      ft := ft'
      clock := t
      lastRead := fun id =>
        if id ∈ readBy t s.query (s.ft.buckets i) then some t else s.lastRead id } e := by
  intro j x hx
  obtain ⟨e, he, hcases⟩ := mem_agingFtEntry hx
  obtain ⟨hexp, hcnt, hread⟩ := h.timed j e he
  by_cases hid : e.id ∈ readBy t s.query (s.ft.buckets i)
  · have hbefore : ∀ τ, s.lastPkt e.id = some τ → ∃ r, (if e.id ∈ readBy t s.query (s.ft.buckets i)
        then some t else s.lastRead e.id) = some r ∧ τ ≤ r :=
      fun τ hτ => ⟨t, if_pos hid, UInt64.le_trans (h.pktLe _ _ hτ) ht⟩
    rcases hcases with rfl | ⟨-, rfl⟩
    · exact ⟨hexp, hcnt, fun τ hτ _ => hbefore τ hτ⟩
    · refine ⟨hexp, ?_, fun τ hτ _ => hbefore τ hτ⟩
      show (ofNat (s.total e.id)).toNat ≤ s.total e.id
      rw [toNat_ofNat']
      exact Nat.mod_le _ _
  · have hx : x = e := hcases.resolve_right fun hno => hid hno.1
    subst hx
    refine ⟨hexp, hcnt, ?_⟩
    dsimp only
    rw [if_neg hid]
    exact hread

theorem fresh_mono {ft' : Ft} (hle : additions s.ft.log ≤ additions ft'.log) :
    ∀ id, additions ft'.log ≤ id → s.total id = 0 ∧ s.lastPkt id = none :=
  fun id hid => h.fresh id (hle.trans hid)

theorem watchStep_inv {ev : WatchEv} (hs : watchStep hz s ev = some s') : WatchInv hz s' := by
  cases ev
  all_goals
    simp only [watchStep] at hs
    split at hs <;> cases hs
  case packet pinfo env hclock =>
    have hch := @step_view hz s.ft (.packet pinfo env) _ h.table rfl
    exact ⟨h.table.changes hch, timed_packet h, fresh_mono h (Table.additions_le hch),
      fun id τ hτ => UInt64.le_trans (h.pktLe id τ hτ) (UInt64.le_trans hclock.1 hclock.2), h.totalLt⟩
  case find pinfo now hclock =>
    have hch := @step_view hz s.ft (.find pinfo now) _ h.table rfl
    exact ⟨h.table.changes hch, timed_find h, fresh_mono h (Table.additions_le hch),
      fun id τ hτ => UInt64.le_trans (h.pktLe id τ hτ) hclock, h.totalLt⟩
  case count i id now hcond =>
    obtain ⟨hclock, ⟨e, he, rfl⟩, hlt⟩ := hcond
    have hlive : e.id < additions s.ft.log := by
      obtain ⟨p, hp, -⟩ := h.table.slot (mem_view he)
      exact h.table.addedLt hp
    refine ⟨h.table, timed_count h, fun id hid => ?_, fun id τ hτ => ?_, fun id => ?_⟩
    · have hid : additions s.ft.log ≤ id := hid
      have hne : id ≠ e.id := by omega
      dsimp only
      rw [update_of_ne hne, update_of_ne hne]
      exact h.fresh id hid
    · dsimp only at hτ ⊢
      by_cases hid : id = e.id
      · rw [hid, update_self] at hτ
        cases hτ
        exact UInt64.le_refl _
      · rw [update_of_ne hid] at hτ
        exact UInt64.le_trans (h.pktLe id τ hτ) hclock
    · dsimp only
      by_cases hid : id = e.id
      · rw [hid, update_self]
        exact hlt
      · rw [update_of_ne hid]
        exact h.totalLt id
  case sweep i t hcond =>
    have hch := @step_view hz s.ft (.sweep i t s.query) _ h.table (if_pos hcond.2)
    exact ⟨h.table.changes hch, timed_sweep h hcond.1, fresh_mono h (Table.additions_le hch),
      fun id τ hτ => UInt64.le_trans (h.pktLe id τ hτ) hcond.1, h.totalLt⟩
  case destroy e hlive =>
    have hch := @step_view hz s.ft (.destroy e) _ h.table (if_pos hlive)
    refine ⟨h.table.changes hch, fun i x hx => ?_, fresh_mono h (Table.additions_le hch), h.pktLe,
      h.totalLt⟩
    exact (h.timed i x (mem_of_mem_filter hx)).after rfl

end

variable {nbFlows : Int} {ft0 : Ft}

theorem watchInv_of_reach (hn : nbFlows ≤ 2 ^ 15) (h0 : ftCreate nbFlows = some ft0)
    (h : Reach (watchStep hz) (fun _ _ => True) (Watch.start ft0) s) : WatchInv hz s := by
  refine h.invariant (I := WatchInv hz) ?_ fun _ _ _ hi _ hs => watchStep_inv hi hs
  refine ⟨ftCreate_inv hn h0, fun i e he => ?_, fun _ _ => ⟨rfl, rfl⟩, nofun, fun _ => Nat.two_pow_pos _⟩
  unfold ftCreate at h0
  split at h0 <;> cases h0
  cases he

/-! ## Removing active flows -/

def ageTicks (hz : UInt64) (e : Entry) : Nat := hz.toNat * e.ageSec.toNat

def Watch.Removes (s : Watch) (i : Nat) (t : UInt64) (e : Entry) : Prop :=
  ∃ j, e ∈ s.ft.buckets j ∧ ∀ e' ∈ (agingFtEntry s.ft i t s.query).2.buckets j, e'.id ≠ e.id

/-- The entry was created or looked up, or a packet of it was counted, within its age before `t`. -/
def Watch.Active (hz : UInt64) (s : Watch) (t : UInt64) (e : Entry) : Prop :=
  t.toNat ≤ (s.touched e.id).toNat + ageTicks hz e ∨
    ∃ τ, s.lastPkt e.id = some τ ∧ t.toNat ≤ τ.toNat + ageTicks hz e

/-- The last packet is within the age before `t`, and an earlier sweep has read its count. -/
def Watch.ReadEarly (hz : UInt64) (s : Watch) (t : UInt64) (e : Entry) : Prop :=
  ∃ τ r, s.lastPkt e.id = some τ ∧ s.lastRead e.id = some r ∧ τ ≤ r ∧ t.toNat ≤ τ.toNat + ageTicks hz e

theorem expiration_toNat (touched : UInt64) (e : Entry) :
    (touched + hz * e.ageSec.toUInt64).toNat = (touched.toNat + ageTicks hz e) % 2 ^ 64 := by
  unfold ageTicks
  rw [UInt64.toNat_add, UInt64.toNat_mul, UInt32.toNat_toUInt64]
  omega

theorem removes_spec (h : WatchInv hz s) (hrm : s.Removes i t e) :
    (∃ j, e ∈ s.ft.buckets j) ∧ e.ageSec ≠ 0 ∧ e.expiration < t ∧ e.lastCounter.toNat = s.total e.id := by
  obtain ⟨j, he, hgone⟩ := hrm
  obtain ⟨rfl, hvict⟩ := (sweep_removed_iff h.table he).mp hgone
  have hidle : Idle t s.query e := by simpa using find?_some hvict
  obtain ⟨⟨hage, hexp⟩, hup⟩ := hidle
  refine ⟨⟨i, he⟩, hage, hexp, ?_⟩
  have heq : ofNat (s.total e.id) = e.lastCounter := totalPkts_of_false rfl hup
  rw [← heq, toNat_ofNat', Nat.mod_eq_of_lt (h.totalLt e.id)]

/-- **An active flow is never aged out, exactly if the expiration times do not wrap and no flow is removed
with a recent packet that an earlier sweep has already read.** -/
theorem active_kept_iff (hn : nbFlows ≤ 2 ^ 15) (h0 : ftCreate nbFlows = some ft0)
    (h : Reach (watchStep hz) (fun _ _ => True) (Watch.start ft0) s) (i : Nat) (t : UInt64) :
    (∀ e, s.Removes i t e → ¬ s.Active hz t e) ↔ ∀ e, s.Removes i t e →
        (s.touched e.id).toNat + ageTicks hz e < 2 ^ 64 ∧ ¬ s.ReadEarly hz t e := by
  have hinv := watchInv_of_reach hn h0 h
  refine forall_congr' fun e => imp_congr_right fun hrm => ?_
  obtain ⟨⟨j, he⟩, hage, hexp, hcnt⟩ := removes_spec hinv hrm
  have htimed := hinv.timed j e he
  constructor
  · intro hidle
    refine ⟨?_, ?_⟩
    · by_contra hwrap
      have := t.toNat_lt
      exact hidle (.inl (by omega))
    · rintro ⟨τ, r, hτ, -, -, hrecent⟩
      exact hidle (.inr ⟨τ, hτ, hrecent⟩)
  · rintro ⟨hwrap, hearly⟩ (htouched | ⟨τ, hτ, hrecent⟩)
    · have hlt := UInt64.lt_iff_toNat_lt.mp hexp
      rw [htimed.expires hage, expiration_toNat, Nat.mod_eq_of_lt hwrap] at hlt
      omega
    · obtain ⟨r, hr, hle⟩ := htimed.read τ hτ hcnt
      exact hearly ⟨τ, r, hτ, hr, hle, hrecent⟩

/-! ### A flow with steady traffic -/

/-- A flow with an age of five seconds; six seconds later a packet is counted and a sweep reads it. -/
def steadyRun : List WatchEv :=
  [.packet samplePkt sampleEnv, .count 7 0 6, .sweep 7 6]

/-- A second after the packet the next sweep removes the flow. -/
theorem active_removed : ∃ s, Reach (watchStep 1) (fun _ _ => True) (Watch.start appTable) s ∧
      ftCreate SIMPLE_FWD_MAX_FLOWS = some appTable ∧ s.clock ≤ 7 ∧
      ∃ e, s.Removes 7 7 e ∧ e.ageSec = 5 ∧ s.lastPkt e.id = some 6 ∧ s.Active 1 7 e := by
  have hrun : ∃ s, run (watchStep 1) (Watch.start appTable) steadyRun = some s ∧ s.clock ≤ 7 ∧
      ∃ e ∈ s.ft.buckets 7,
        (∀ e' ∈ (agingFtEntry s.ft 7 7 s.query).2.buckets 7, e'.id ≠ e.id) ∧ e.ageSec = 5 ∧
          s.lastPkt e.id = some 6 ∧ 7 ≤ 6 + ageTicks 1 e := ⟨_, rfl, by decide +kernel, by decide +kernel⟩
  obtain ⟨s, hs, hclock, e, he, hgone, hage, hpkt, hrecent⟩ := hrun
  exact ⟨s, Reach.init.run (fun _ _ => trivial) hs, ftCreate_appTable, hclock, e, ⟨7, he, hgone⟩, hage, hpkt,
    .inr ⟨6, hpkt, hrecent⟩⟩

theorem active_kept_iff_quiet : ∃ s, Reach (watchStep 1) (fun _ _ => True) (Watch.start appTable) s ∧
      (∃ e, s.Removes 7 7 e) ∧
      ((∀ e, s.Removes 7 7 e → ¬ s.Active 1 7 e) ↔ ∀ e, s.Removes 7 7 e →
          (s.touched e.id).toNat + ageTicks 1 e < 2 ^ 64 ∧ ¬ s.ReadEarly 1 7 e) := by
  have hreach : Reach (watchStep 1) (fun _ _ => True) (Watch.start appTable) _ :=
    .run (l := [.packet samplePkt sampleEnv]) (fun _ _ => trivial) .init rfl
  refine ⟨_, hreach, ?_, active_kept_iff (by decide) ftCreate_appTable hreach 7 7⟩
  exact ⟨_, 7, mem_singleton.mpr rfl, by decide +kernel⟩

end Doca.SimpleFwd
