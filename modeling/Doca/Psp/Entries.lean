import Doca.Psp.Tunnels

/-!
# PSP gateway: entries and crypto ids over whole runs

* `liveIds` — the crypto ids of the sessions with an entry.

Principal results, each for every run:

* `entries_recorded_iff` — a call that draws an id for an address with an entry adds a second entry, or
  erases the session of the first.
* `capacity_kept_iff` — ids are distinct and in range.
-/

namespace Doca.Psp

open Doca.Lib List

variable {K : Type} [DecidableEq K]

/-! ## Entries -/

section Entries

variable {s s' s₁ : Gateway K} {cfg : PspConfig} {inet : Inet K} {e : PspEvent K} {v : UInt32}

def matching (v : UInt32) (s : Gateway K) : List EncryptEntry := s.egress.filter fun e => e.dstIp = v

/-- At most one entry matches an address; the session of the address records it, with its SPI and crypto
    id, and no session records another. -/
structure Recorded (inet : Inet K) (s : Gateway K) : Prop where
  unique : ∀ v, (matching v s).length ≤ 1
  recorded : ∀ v, ∀ entry ∈ matching v s, ∃ x, s.session? (inet.ntop v) = some x ∧
    x.encapEncryptEntry = some entry.handle ∧ x.spiEgress = entry.spi ∧ x.cryptoId = entry.cryptoId
  installed : ∀ v x, s.session? (inet.ntop v) = some x → x.encapEncryptEntry ≠ none → matching v s ≠ []

def DrawsFresh (cfg : PspConfig) (inet : Inet K) (s : Gateway K) (e : PspEvent K) : Prop :=
  Draws cfg inet s e → ∀ v, e.key inet = inet.ntop v → ¬ Installed v s

def Astray (inet : Inet K) (s : Gateway K) : Prop :=
  ∃ v, 2 ≤ (matching v s).length ∨
    (1 ≤ (matching v s).length ∧ (s.session (inet.ntop v)).encapEncryptEntry = none)

omit [DecidableEq K] in
theorem matching_eq (h : s'.egress = s.egress) (v : UInt32) : matching v s' = matching v s := by
  rw [matching, h, matching]

omit [DecidableEq K] in
theorem matching_append {entry : EncryptEntry} (h : s'.egress = s.egress ++ [entry]) (v : UInt32) :
    matching v s' = if entry.dstIp = v then matching v s ++ [entry] else matching v s := by
  rw [matching, h, filter_append, matching]
  split
  all_goals
    rename_i hv
    simp [hv]

omit [DecidableEq K] in
theorem installed_iff_matching : Installed v s ↔ matching v s ≠ [] := by
  rw [Installed, matching, ne_eq, filter_eq_nil_iff]
  push Not
  simp

structure RecordedAt (inet : Inet K) (s : Gateway K) (v : UInt32) : Prop where
  unique : (matching v s).length ≤ 1
  recorded : ∀ entry ∈ matching v s, (s.session (inet.ntop v)).encapEncryptEntry = some entry.handle ∧
    (s.session (inet.ntop v)).spiEgress = entry.spi ∧
    (s.session (inet.ntop v)).cryptoId = entry.cryptoId
  installed : (s.session (inet.ntop v)).encapEncryptEntry ≠ none → matching v s ≠ []

theorem session?_of_entry {k : K} (h : (s.session k).encapEncryptEntry ≠ none) :
    s.session? k = some (s.session k) := by
  unfold Gateway.session at h ⊢
  cases hx : s.session? k with
  | none =>
    rw [hx] at h
    exact absurd rfl h
  | some x => rfl

theorem session_of_session? {k : K} {x : PspSession} (h : s.session? k = some x) : s.session k = x := by
  rw [Gateway.session, h]
  rfl

theorem recorded_iff : Recorded inet s ↔ ∀ v, RecordedAt inet s v := by
  constructor
  · intro h v
    refine ⟨h.unique v, fun entry hentry => ?_, fun hne => ?_⟩
    · obtain ⟨x, hx, hfields⟩ := h.recorded v entry hentry
      rw [session_of_session? hx]
      exact hfields
    · exact h.installed v _ (session?_of_entry hne) hne
  · intro h
    refine ⟨fun v => (h v).unique, fun v entry hentry => ?_, fun v x hx hne => ?_⟩
    · have hfields := (h v).recorded entry hentry
      refine ⟨_, session?_of_entry ?_, hfields⟩
      rw [hfields.1]
      exact Option.some_ne_none _
    · rw [← session_of_session? hx] at hne
      exact (h v).installed hne

theorem Astray.not_recorded (h : Astray inet s) : ¬ Recorded inet s := by
  intro hrec
  obtain ⟨v, htwo | ⟨hone, hnone⟩⟩ := h
  · have hle := hrec.unique v
    omega
  · obtain ⟨entry, hentry⟩ := exists_mem_of_length_pos hone
    obtain ⟨x, hx, henc, _⟩ := hrec.recorded v entry hentry
    rw [Gateway.session, hx] at hnone
    exact Option.some_ne_none _ (henc.symm.trans hnone)

theorem session_of_ne {k : K} (h : s'.session? k = s.session? k) : s'.session k = s.session k := by
  rw [Gateway.session, h, Gateway.session]

def SameFlow (x' x : PspSession) : Prop :=
  x'.encapEncryptEntry = x.encapEncryptEntry ∧ x'.spiEgress = x.spiEgress ∧ x'.cryptoId = x.cryptoId

/-- What a call does to the entries and the flow of an address: nothing, unless it draws an id for the
    address; then the session is erased, or an entry is added and recorded. -/
theorem pspStep_at (cfg : PspConfig) (inet : Inet K) (s : Gateway K) (e : PspEvent K) (v : UInt32) :
    let s' := pspStep cfg inet s e
    (¬ (Draws cfg inet s e ∧ e.key inet = inet.ntop v) ∧ matching v s' = matching v s ∧
      SameFlow (s'.session (inet.ntop v)) (s.session (inet.ntop v))) ∨
    (Draws cfg inet s e ∧ e.key inet = inet.ntop v ∧
      ((matching v s' = matching v s ∧ s'.session (inet.ntop v) = {}) ∨
        ∃ x entry, s'.session (inet.ntop v) = x ∧ matching v s' = matching v s ++ [entry] ∧
          x.encapEncryptEntry = some entry.handle ∧ x.spiEgress = entry.spi ∧
          x.cryptoId = entry.cryptoId)) := by
  obtain ⟨s₁, hopen, ⟨hno, hsame⟩ | ⟨hdraws, w, hkey, hrest⟩⟩ := pspStep_cases cfg inet s e
  · refine .inl ⟨fun h => hno h.1, matching_eq (hsame.egress.trans hopen.egress) v, ?_⟩
    rw [Gateway.session_eq hsame.sessions]
    exact hopen.session_flow _
  by_cases hk : e.key inet = inet.ntop v
  · refine .inr ⟨hdraws, hk, hrest.imp (fun hfail => ⟨?_, ?_⟩) fun hcreate => ?_⟩
    · exact matching_eq (hfail.egress.trans hopen.egress) v
    · rw [Gateway.session, Gateway.session?_others hfail.sessions, if_pos hk]
      rfl
    · obtain ⟨x, entry, hsessions, hegress, hdst, -, hflow⟩ := hcreate.entry
      have hwv : w = v := inet.ntop_injective (hkey.symm.trans hk)
      refine ⟨x, entry, ?_, ?_, hflow⟩
      · rw [Gateway.session, Gateway.session?_put hsessions, if_pos hk]
        rfl
      · rw [matching_append hegress, matching_eq hopen.egress, if_pos (hdst.trans hwv)]
  · refine .inl ⟨fun h => hk h.2, ?_⟩
    rcases hrest with hfail | hcreate
    · refine ⟨matching_eq (hfail.egress.trans hopen.egress) v, ?_⟩
      rw [session_of_ne (s := s₁) (by rw [Gateway.session?_others hfail.sessions, if_neg hk])]
      exact hopen.session_flow _
    · obtain ⟨x, entry, hsessions, hegress, hdst, -⟩ := hcreate.entry
      have hne : entry.dstIp ≠ v := fun heq => hk (hkey.trans (congrArg inet.ntop (hdst.symm.trans heq)))
      refine ⟨by rw [matching_append hegress, matching_eq hopen.egress, if_neg hne], ?_⟩
      rw [session_of_ne (s := s₁) (by rw [Gateway.session?_put hsessions, if_neg hk])]
      exact hopen.session_flow _

theorem Astray.step (h : Astray inet s) : Astray inet (pspStep cfg inet s e) := by
  obtain ⟨v, hv⟩ := h
  refine ⟨v, ?_⟩
  obtain ⟨-, hm, henc, -⟩ | ⟨-, -, ⟨hm, hnone⟩ | ⟨x, entry, -, hm, -⟩⟩ := pspStep_at cfg inet s e v
  · rw [hm, henc]
    exact hv
  · rw [hm, hnone]
    exact hv.imp_right fun ⟨hone, _⟩ => ⟨hone, rfl⟩
  · left
    rw [hm, length_append, length_singleton]
    rcases hv with htwo | ⟨hone, _⟩ <;> omega

theorem Astray.of_draws (hdraws : Draws cfg inet s e) (hkey : e.key inet = inet.ntop v)
    (hinst : Installed v s) : Astray inet (pspStep cfg inet s e) := by
  have hone := List.length_pos_iff.mpr (installed_iff_matching.mp hinst)
  refine ⟨v, ?_⟩
  obtain ⟨hno, -⟩ | ⟨-, -, ⟨hm, hnone⟩ | ⟨x, entry, -, hm, -⟩⟩ := pspStep_at cfg inet s e v
  · exact absurd ⟨hdraws, hkey⟩ hno
  · right
    rw [hm, hnone]
    exact ⟨hone, rfl⟩
  · left
    rw [hm, length_append, length_singleton]
    omega

theorem RecordedAt.step (h : RecordedAt inet s v) (hfresh : DrawsFresh cfg inet s e) :
    RecordedAt inet (pspStep cfg inet s e) v := by
  obtain ⟨-, hm, henc, hspi, hid⟩ | ⟨hdraws, hkey, hrest⟩ := pspStep_at cfg inet s e v
  · refine ⟨by rw [hm]; exact h.unique, fun entry hentry => ?_, fun hne => ?_⟩
    · rw [hm] at hentry
      rw [henc, hspi, hid]
      exact h.recorded entry hentry
    · rw [hm]
      rw [henc] at hne
      exact h.installed hne
  -- the address of the call has no entry yet
  have hempty : matching v s = [] := by
    by_contra hne
    exact hfresh hdraws v hkey (installed_iff_matching.mpr hne)
  rw [hempty] at hrest
  obtain ⟨hm, hnone⟩ | ⟨x, entry, hx, hm, hflow⟩ := hrest
  · refine ⟨by rw [hm]; exact Nat.zero_le _, fun entry hentry => ?_, fun hne => ?_⟩
    · rw [hm] at hentry
      cases hentry
    · rw [hnone] at hne
      exact absurd rfl hne
  · refine ⟨by rw [hm]; exact Nat.le_refl 1, fun other hother => ?_, fun _ => ?_⟩
    · rw [hm, nil_append, mem_singleton] at hother
      rw [hother, hx]
      exact hflow
    · rw [hm]
      exact cons_ne_nil _ _

theorem Recorded.fresh : Recorded inet (Gateway.fresh : Gateway K) := by
  refine ⟨fun _ => Nat.zero_le _, ?_, ?_⟩
  · intro v entry hentry
    cases hentry
  · intro v x hx
    cases hx

theorem astray_of_not_fresh {es : List (PspEvent K)}
    (h : ¬ ∀ pre e, pre ++ [e] <+: es → DrawsFresh cfg inet (pspRun cfg inet pre) e) :
    Astray inet (pspRun cfg inet es) := by
  induction es using reverseRecOn with
  | nil => exact absurd forall_steps_nil h
  | append_singleton es last ih =>
    rw [pspRun_append]
    by_cases hbefore : ∀ pre e, pre ++ [e] <+: es → DrawsFresh cfg inet (pspRun cfg inet pre) e
    · have hlast : ¬ DrawsFresh cfg inet (pspRun cfg inet es) last :=
        fun hfresh => h (forall_steps_concat.mpr ⟨hbefore, hfresh⟩)
      unfold DrawsFresh at hlast
      push Not at hlast
      obtain ⟨hdraws, v, hkey, hinst⟩ := hlast
      exact Astray.of_draws hdraws hkey hinst
    · exact (ih hbefore).step

/-- **The egress pipe holds the recorded entries after a run exactly if no call of the run drew an id
    for an address that already had an entry.** -/
theorem entries_recorded_iff (cfg : PspConfig) (inet : Inet K) (es : List (PspEvent K)) :
    Recorded inet (pspRun cfg inet es) ↔
      ∀ pre e, pre ++ [e] <+: es → DrawsFresh cfg inet (pspRun cfg inet pre) e := by
  constructor
  · intro hrec
    by_contra hno
    exact (astray_of_not_fresh hno).not_recorded hrec
  · intro hfresh
    rw [recorded_iff]
    intro v
    induction es using reverseRecOn with
    | nil => exact recorded_iff.mp Recorded.fresh v
    | append_singleton es last ih =>
      obtain ⟨hbefore, hlast⟩ := forall_steps_concat.mp hfresh
      rw [pspRun_append]
      exact (ih hbefore).step hlast

def goodParams (spi : UInt32) : TunnelParams :=
  ⟨some [], some [], 1, spi, List.replicate 32 7, 0⟩

/-- Two requests of one peer lead to two entries for its address; a second one whose parameters are
    not usable erases the session of the first. -/
theorem entries_astray : ¬ Recorded plainInet (pspRun onePeer plainInet
        [servePeer (some (goodParams 1)), servePeer (some (goodParams 2))]) ∧
      ¬ Recorded plainInet (pspRun onePeer plainInet
        [servePeer (some (goodParams 1)), servePeer (some { goodParams 2 with macAddr := none })]) := by
  constructor
  · intro h
    exact absurd (h.unique 20) (by decide)
  · intro h
    obtain ⟨x, hx, _⟩ := h.recorded 20 _ (mem_singleton_self _)
    cases hx

end Entries

/-! ## Crypto ids -/

section Ids

variable {s s' s₁ : Gateway K} {cfg : PspConfig} {inet : Inet K} {e : PspEvent K} {k : K}

def PspSession.liveId (x : PspSession) : Option UInt32 := x.encapEncryptEntry.map fun _ => x.cryptoId

def liveIds (s : Gateway K) : List UInt32 := s.sessions.filterMap fun p => p.2.liveId

structure CapacityKept (cfg : PspConfig) (s : Gateway K) : Prop where
  distinct : (liveIds s).Nodup
  bound : ∀ id ∈ liveIds s, 1 ≤ id.toNat ∧ id.toNat ≤ cfg.maxTunnels.toNat
  exhausted : (nextCryptoId cfg s).1 = UINT32_MAX → (liveIds s).length = cfg.maxTunnels.toNat

/-- The call draws an id for a flow that is not created, or in the place of another one. -/
def Wastes (cfg : PspConfig) (inet : Inet K) (s : Gateway K) (e : PspEvent K) : Prop :=
  Draws cfg inet s e ∧ ((pspStep cfg inet s e).egress = s.egress ∨
    (s.session (e.key inet)).encapEncryptEntry ≠ none)

/-- **When a call wastes an id**: the flow cannot be completed, or its session has an entry already. -/
theorem wastes_iff : Wastes cfg inet s e ↔
    ∃ v params env, flowCall cfg inet s e = some (v, params, env) ∧ Accepts cfg params s ∧
      (¬ Completes params env ∨ (s.session (e.key inet)).encapEncryptEntry ≠ none) := by
  unfold Wastes
  obtain ⟨s₁, hopen, ⟨hno, h⟩ | ⟨v, params, env, hcall, hyes, hpart⟩⟩ := pspStep_flow cfg inet s e
  · refine iff_of_false ?_ ?_
    · exact fun hw => hw.1 (h.ids.trans hopen.ids)
    · rintro ⟨v, params, env, hcall, hyes, -⟩
      exact hno v params env hcall hyes
  · have hdraws : Draws cfg inet s e := draws_iff.mpr ⟨v, params, env, hcall, hyes⟩
    have hegress : (pspStep cfg inet s e).egress = s.egress ↔ ¬ Completes params env := by
      rcases hpart with ⟨hno, h⟩ | ⟨hcomp, h⟩
      · exact iff_of_true (h.egress.trans hopen.egress) hno
      · obtain ⟨x, entry, -, hgrown, -⟩ := h.entry
        refine iff_of_false ?_ (not_not_intro hcomp)
        rw [hgrown, hopen.egress]
        exact fun heq => cons_ne_nil _ _ (List.self_eq_append_right.mp heq.symm)
    rw [hegress, and_iff_right hdraws]
    constructor
    · exact fun hw => ⟨v, params, env, hcall, hyes, hw⟩
    · rintro ⟨v', params', env', hcall', -, hw⟩
      rw [hcall] at hcall'
      cases hcall'
      exact hw

structure Drawn (cfg : PspConfig) (s : Gateway K) : Prop where
  keys : (s.sessions.map Prod.fst).Nodup
  distinct : (liveIds s).Nodup
  below : ∀ id ∈ liveIds s, 1 ≤ id.toNat ∧ id.toNat < s.nextCryptoId.toNat
  next : s.nextCryptoId.toNat ≤ cfg.maxTunnels.toNat + 1
  count : (liveIds s).length + 1 ≤ s.nextCryptoId.toNat

theorem liveIds_perm (hkeys : (s.sessions.map Prod.fst).Nodup) (k : K) :
    (liveIds s).Perm ((s.session k).liveId.toList ++
      (others Prod.fst k s.sessions).filterMap fun p => p.2.liveId) := by
  cases hx : lookup Prod.fst k s.sessions with
  | none =>
    have hsession : s.session k = {} := by
      rw [Gateway.session, Gateway.session?, hx]
      rfl
    rw [hsession, others_of_not_mem (lookup_eq_none.mp hx)]
    exact List.Perm.refl _
  | some p =>
    obtain ⟨hmem, hp⟩ := mem_of_lookup hx
    have hsession : s.session k = p.2 := by
      rw [Gateway.session, Gateway.session?, hx]
      rfl
    have hperm := (perm_cons_others hkeys hmem).filterMap fun p => p.2.liveId
    rw [hp] at hperm
    rw [hsession]
    refine hperm.trans ?_
    rw [filterMap_cons]
    cases p.2.liveId with
    | none | some id => exact List.Perm.refl _

theorem liveIds_put {x : PspSession} (h : s'.sessions = put Prod.fst (k, x) s.sessions) :
    liveIds s' = x.liveId.toList ++ (others Prod.fst k s.sessions).filterMap fun p => p.2.liveId := by
  rw [liveIds, h, put, filterMap_cons]
  cases hid : x.liveId with
  | none => rfl
  | some id => rfl

theorem OpenPart.keys (h : OpenPart cfg inet e s s₁) (hkeys : (s.sessions.map Prod.fst).Nodup) :
    (s₁.sessions.map Prod.fst).Nodup := by
  rcases h with ⟨_, h⟩ | ⟨_, h⟩
  · obtain ⟨x, hx, _⟩ := h.sessions
    rw [hx]
    exact nodup_put hkeys
  · rw [h.sessions]
    exact hkeys

theorem OpenPart.liveIds_perm (h : OpenPart cfg inet e s s₁)
    (hkeys : (s.sessions.map Prod.fst).Nodup) : (liveIds s₁).Perm (liveIds s) := by
  rcases h with ⟨_, h⟩ | ⟨_, h⟩
  · obtain ⟨x, hx, henc, _, hid⟩ := h.sessions
    have hlive : x.liveId = (s.session (e.key inet)).liveId := by
      rw [PspSession.liveId, henc, hid, PspSession.liveId]
    rw [liveIds_put hx, hlive]
    exact (Psp.liveIds_perm hkeys _).symm
  · rw [liveIds, h.sessions, liveIds]

theorem Drawn.openPart (h : Drawn cfg s) (hopen : OpenPart cfg inet e s s₁) : Drawn cfg s₁ := by
  have hperm := hopen.liveIds_perm h.keys
  refine ⟨hopen.keys h.keys, hperm.nodup_iff.mpr h.distinct, fun id hid => ?_, ?_, ?_⟩
  · rw [hopen.ids]
    exact h.below id (hperm.mem_iff.mp hid)
  · rw [hopen.ids]
    exact h.next
  · rw [hopen.ids, hperm.length_eq]
    exact h.count

omit [DecidableEq K] in
theorem toNat_succ_of_room (hroom : s.nextCryptoId ≤ cfg.maxTunnels) :
    (s.nextCryptoId + 1).toNat = s.nextCryptoId.toNat + 1 := by
  have hle := UInt32.le_iff_toNat_le.mp hroom
  have hmax := cfg.max_lt
  rw [UInt32.toNat_add, UInt32.toNat_one]
  omega

theorem others_sublist_liveIds (s : Gateway K) (k : K) :
    ((others Prod.fst k s.sessions).filterMap fun p => p.2.liveId).Sublist (liveIds s) :=
  List.filter_sublist.filterMap _

theorem Drawn.failed (h : Drawn cfg s) (hfail : Failed cfg k s s') :
    Drawn cfg s' ∧ (liveIds s').length + 1 < s'.nextCryptoId.toNat := by
  have hnext : s'.nextCryptoId.toNat = s.nextCryptoId.toNat + 1 := by
    rw [hfail.ids, toNat_succ_of_room hfail.room]
  have hsub : (liveIds s').Sublist (liveIds s) := by
    rw [liveIds, hfail.sessions]
    exact others_sublist_liveIds s k
  have hlen := hsub.length_le
  have hcount := h.count
  have hroom := UInt32.le_iff_toNat_le.mp hfail.room
  refine ⟨⟨?_, hsub.nodup h.distinct, fun id hid => ?_, by omega, by omega⟩, by omega⟩
  · rw [hfail.sessions]
    exact nodup_others h.keys
  · have hbelow := h.below id (hsub.subset hid)
    omega

theorem Drawn.created {v : UInt32} (h : Drawn cfg s) (hcreate : Created cfg k v s s') :
    Drawn cfg s' ∧ ((liveIds s').length + 1 = s'.nextCryptoId.toNat ↔
      (liveIds s).length + 1 = s.nextCryptoId.toNat ∧ (s.session k).encapEncryptEntry = none) := by
  obtain ⟨x, entry, hsessions, _, _, hid, henc, _, hcid⟩ := hcreate.entry
  have hnext : s'.nextCryptoId.toNat = s.nextCryptoId.toNat + 1 := by
    rw [hcreate.ids, toNat_succ_of_room hcreate.room]
  have hlive : liveIds s' = s.nextCryptoId ::
      (others Prod.fst k s.sessions).filterMap fun p => p.2.liveId := by
    rw [liveIds_put hsessions, PspSession.liveId, henc, hcid, hid]
    rfl
  have hsub := others_sublist_liveIds s k
  have hlen := (liveIds_perm h.keys k).length_eq
  have hcount := h.count
  have hroom := UInt32.le_iff_toNat_le.mp hcreate.room
  constructor
  · refine ⟨?_, ?_, ?_, by omega, ?_⟩
    · rw [hsessions]
      exact nodup_put h.keys
    · rw [hlive, nodup_cons]
      refine ⟨fun hmem => ?_, hsub.nodup h.distinct⟩
      exact Nat.lt_irrefl _ (h.below _ (hsub.subset hmem)).2
    · intro id hmem
      rw [hlive, mem_cons] at hmem
      rcases hmem with rfl | hmem
      · omega
      · have hbelow := h.below id (hsub.subset hmem)
        omega
    · rw [hlive, length_cons]
      have hle := hsub.length_le
      omega
  · rw [hlive, length_cons, hnext]
    rw [length_append] at hlen
    cases hold : (s.session k).encapEncryptEntry with
    | none =>
      rw [PspSession.liveId, hold] at hlen
      simp only [Option.map_none, Option.toList_none, length_nil, Nat.zero_add] at hlen
      rw [and_iff_left rfl]
      omega
    | some old =>
      rw [PspSession.liveId, hold] at hlen
      simp only [Option.map_some, Option.toList_some, length_singleton] at hlen
      refine iff_of_false ?_ ?_
      · omega
      · rintro ⟨_, hno⟩
        cases hno

theorem Drawn.step (h : Drawn cfg s) (inet : Inet K) (e : PspEvent K) : Drawn cfg (pspStep cfg inet s e) ∧
      ((liveIds (pspStep cfg inet s e)).length + 1 = (pspStep cfg inet s e).nextCryptoId.toNat ↔
        (liveIds s).length + 1 = s.nextCryptoId.toNat ∧ ¬ Wastes cfg inet s e) := by
  obtain ⟨s₁, hopen, hrest⟩ := pspStep_cases cfg inet s e
  have h₁ := h.openPart hopen
  have hlen : (liveIds s₁).length = (liveIds s).length := (hopen.liveIds_perm h.keys).length_eq
  rcases hrest with ⟨hno, hsame⟩ | ⟨hdraws, v, _, hfail | hcreate⟩
  · have hlive : liveIds (pspStep cfg inet s e) = liveIds s₁ := by
      rw [liveIds, hsame.sessions, liveIds]
    constructor
    · refine ⟨?_, ?_, ?_, ?_, ?_⟩
      · rw [hsame.sessions]
        exact h₁.keys
      · rw [hlive]
        exact h₁.distinct
      · rw [hlive, hsame.ids]
        exact h₁.below
      · rw [hsame.ids]
        exact h₁.next
      · rw [hlive, hsame.ids]
        exact h₁.count
    · rw [hlive, hlen, hsame.ids, hopen.ids, and_iff_left fun hw => hno hw.1]
  · obtain ⟨hdrawn, hlt⟩ := h₁.failed hfail
    refine ⟨hdrawn, iff_of_false (Nat.ne_of_lt hlt) ?_⟩
    rintro ⟨_, hno⟩
    exact hno ⟨hdraws, .inl (hfail.egress.trans hopen.egress)⟩
  · obtain ⟨hdrawn, htight⟩ := h₁.created hcreate
    refine ⟨hdrawn, ?_⟩
    rw [htight, hlen, hopen.ids, (hopen.session_flow _).1]
    refine and_congr_right fun _ => ?_
    obtain ⟨x, entry, _, hegress, _⟩ := hcreate.entry
    have hgrown : (pspStep cfg inet s e).egress ≠ s.egress := by
      rw [hegress, hopen.egress]
      exact fun heq => cons_ne_nil _ _ (List.self_eq_append_right.mp heq.symm)
    constructor
    · rintro hnone ⟨_, hw | hw⟩
      · exact hgrown hw
      · exact hw hnone
    · intro hno
      by_contra hne
      exact hno ⟨hdraws, .inr hne⟩

theorem drawn_run (cfg : PspConfig) (inet : Inet K) (es : List (PspEvent K)) :
    Drawn cfg (pspRun cfg inet es) ∧
      ((liveIds (pspRun cfg inet es)).length + 1 = (pspRun cfg inet es).nextCryptoId.toNat ↔
        ∀ pre e, pre ++ [e] <+: es → ¬ Wastes cfg inet (pspRun cfg inet pre) e) := by
  induction es using reverseRecOn with
  | nil =>
    refine ⟨⟨nodup_nil, nodup_nil, ?_, ?_, Nat.le_refl 1⟩, iff_of_true rfl forall_steps_nil⟩
    · intro id hid
      cases hid
    · exact Nat.le_add_left 1 _
  | append_singleton es last ih =>
    obtain ⟨hdrawn, htight⟩ := ih
    obtain ⟨hdrawn', htight'⟩ := hdrawn.step inet last
    rw [pspRun_append, forall_steps_concat]
    exact ⟨hdrawn', htight'.trans (and_congr_left fun _ => htight)⟩

omit [DecidableEq K] in
theorem exhausted_iff (h : Drawn cfg s) :
    (nextCryptoId cfg s).1 = UINT32_MAX ↔ s.nextCryptoId.toNat = cfg.maxTunnels.toNat + 1 := by
  have hnext := h.next
  rcases Nat.lt_or_ge cfg.maxTunnels.toNat s.nextCryptoId.toNat with hlt | hge
  · rw [nextCryptoId, if_pos (UInt32.lt_iff_toNat_lt.mpr hlt)]
    exact iff_of_true rfl (by omega)
  · have hno : ¬ s.nextCryptoId > cfg.maxTunnels := by
      rw [gt_iff_lt, UInt32.lt_iff_toNat_lt]
      omega
    rw [nextCryptoId, if_neg hno]
    refine iff_of_false ?_ (by omega)
    intro heq
    have hval : s.nextCryptoId.toNat = UINT32_MAX.toNat := congrArg UInt32.toNat heq
    have hmax : UINT32_MAX.toNat = 2 ^ 32 - 1 := rfl
    have hlt := cfg.max_lt
    omega

/-- **The capacity is kept after a run exactly if there are ids left, or no call of the run wasted
    one.** -/
theorem capacity_kept_iff (cfg : PspConfig) (inet : Inet K) (es : List (PspEvent K)) :
    CapacityKept cfg (pspRun cfg inet es) ↔ ((nextCryptoId cfg (pspRun cfg inet es)).1 = UINT32_MAX →
        ∀ pre e, pre ++ [e] <+: es → ¬ Wastes cfg inet (pspRun cfg inet pre) e) := by
  obtain ⟨hdrawn, htight⟩ := drawn_run cfg inet es
  have hfull := exhausted_iff hdrawn
  rw [← htight]
  constructor
  · intro h hno
    rw [h.exhausted hno, hfull.mp hno]
  · intro h
    refine ⟨hdrawn.distinct, fun id hid => ?_, fun hno => ?_⟩
    · have hbelow := hdrawn.below id hid
      have hnext := hdrawn.next
      omega
    · have hall := h hno
      have hnext := hfull.mp hno
      omega

def oneTunnel : PspConfig := { onePeer with maxTunnels := 1, one_le_max := by decide, max_lt := by decide }

/-- One failed creation uses up the only id: the ids are exhausted, and no tunnel is in use. -/
theorem capacity_lost : ¬ CapacityKept oneTunnel (pspRun oneTunnel plainInet
      [servePeer (some { goodParams 1 with macAddr := none })]) := by
  intro h
  exact absurd (h.exhausted (by decide)) (by decide)

end Ids

end Doca.Psp
