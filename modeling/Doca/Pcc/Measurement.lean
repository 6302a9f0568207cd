import Doca.Pcc.RttTemplate
import Mathlib.Data.List.Induction

/-!
# Congestion control: one measurement at a time

The state machine of RTT requests in `rtt_template.c`: a request is to be sent, is reported as sent by a
TX event, takes too long and is sent again, or is answered by an RTT event.

* `Watch`, `watch` — a run with two facts about its history: how often the measurement under way was
  aborted, and whether its request was reported as sent.

Principal results: `rtt_never_refused`; `backOff_iff`, `backOff_lost`; `stale_ignored_iff`,
`stale_counted`.
-/

namespace Doca.Pcc

open List Nat

/-! ## Runs with their history -/

def ChecksTimeout (c : Ctx) (ev : Event) : Prop :=
  c.curRate ≠ 0 ∧ ev.evType = .roceTx ∧ ¬ (ev.rttReqSent ∧ c.rttMeasPsn = 0)

def Aborts (c : Ctx) (ev : Event) : Prop := ChecksTimeout c ev ∧ TimedOut c ev

def Restarts (c : Ctx) (ev : Event) : Prop := c.curRate = 0 ∨ AcceptedRtt c ev

def Reports (c : Ctx) (ev : Event) : Prop :=
  c.curRate ≠ 0 ∧ ev.evType = .roceTx ∧ ev.rttReqSent

instance (c : Ctx) (ev : Event) : Decidable (Aborts c ev) := by
  unfold Aborts ChecksTimeout
  infer_instance

instance (c : Ctx) (ev : Event) : Decidable (Restarts c ev) := by
  unfold Restarts AcceptedRtt
  infer_instance

instance (c : Ctx) (ev : Event) : Decidable (Reports c ev) := by
  unfold Reports
  infer_instance

structure Watch where
  flow : Flow
  aborts : Nat
  reported : Bool

variable (b : Build) (param : Params)

def watchStep (w : Watch) (ev : Event) : Watch :=
  ⟨rttTemplateAlgo b param w.flow ev,
    if Restarts w.flow.ctx ev then 0
    else if Aborts w.flow.ctx ev then w.aborts + 1
    else w.aborts,
    if Restarts w.flow.ctx ev then false
    else if Reports w.flow.ctx ev then true
    else w.reported⟩

def watch (s : Flow) (events : List Event) : Watch :=
  events.foldl (watchStep b param) ⟨s, 0, false⟩

def ctxAfter (s : Flow) (events : List Event) : Ctx := (runAlgo b param s events).ctx

variable {b param} {s : Flow}

variable (events : List Event)

theorem watch_concat (ev : Event) :
    watch b param s (events ++ [ev]) = watchStep b param (watch b param s events) ev := by
  unfold watch
  rw [foldl_append, foldl_cons, foldl_nil]

theorem watch_flow : (watch b param s events).flow = runAlgo b param s events := by
  induction events using reverseRecOn with
  | nil => rfl
  | append_singleton events ev ih =>
    rw [watch_concat, runAlgo_concat, ← ih]
    rfl

theorem watch_ctx :
    (watch b param s events).flow.ctx = ctxAfter b param s events := by
  rw [watch_flow]
  rfl

/-! ## What the context says -/

/-- A flow that has started: the counter of aborts; whether the request was reported as sent; while it
was not, the counter is 0 and the request waits for one or two TX events. -/
structure Inv (w : Watch) : Prop where
  abortCnt : w.flow.ctx.abortCnt.toNat = w.aborts % 256
  reported : w.reported = true ↔ w.flow.ctx.rttMeasPsn ≠ 0
  notAborted : w.flow.ctx.rttMeasPsn = 0 → w.aborts = 0
  waiting : w.flow.ctx.rttMeasPsn = 0 → w.flow.ctx.rttReqToRttSent = 1 ∨ w.flow.ctx.rttReqToRttSent = 2

variable {w : Watch}

theorem Inv.not_refused (h : Inv w) : ¬ (w.flow.ctx.rttMeasPsn = 0 ∧ w.flow.ctx.rttReqToRttSent = 0) := by
  rintro ⟨hpsn, hreq⟩
  rcases h.waiting hpsn with h1 | h2
  · rw [h1] at hreq
    exact absurd hreq (by decide)
  · rw [h2] at hreq
    exact absurd hreq (by decide)

variable {ev : Event}

theorem not_timedOut {c : Ctx} (h : c.rttMeasPsn = 0) : ¬ TimedOut c ev := by
  unfold TimedOut rttTillNow
  rw [if_pos h]
  intro hlt
  exact absurd (UInt32.lt_iff_toNat_lt.mp hlt) (not_lt_zero _)

theorem newRate_ctx (ev : Event) (curRate : UInt32) (c : Ctx) :
    let o := newRate b param ev curRate c
    o.2.rttMeasPsn = 0 ∧ o.2.abortCnt = 0 ∧ o.2.rtt = measuredRtt b ev ∧
      o.2.startDelay = c.startDelay := by
  unfold newRate algorithmCore
  dsimp only
  split
  · exact ⟨rfl, rfl, rfl, rfl⟩
  split
  · exact ⟨rfl, rfl, rfl, rfl⟩
  split
  · exact ⟨rfl, rfl, rfl, rfl⟩
  split <;> exact ⟨rfl, rfl, rfl, rfl⟩

theorem algo_acceptedRtt (h : AcceptedRtt s.ctx ev) : (rttTemplateAlgo b param s ev).ctx =
      { (newRate b param ev s.ctx.curRate s.ctx).2 with
        rttReqToRttSent := 1, curRate := (newRate b param ev s.ctx.curRate s.ctx).1 } := by
  unfold rttTemplateAlgo
  dsimp only
  rw [if_neg h.1, h.2.1]
  dsimp only
  rw [handleRoceRtt_accepted h.2.2]

theorem algo_roceTx (h0 : s.ctx.curRate ≠ 0) (hev : ev.evType = .roceTx) :
    (rttTemplateAlgo b param s ev).ctx = (handleRoceTx ev s.ctx.curRate s.ctx).1 := by
  unfold rttTemplateAlgo
  dsimp only
  rw [if_neg h0, hev]

theorem not_restarts {c : Ctx} (h0 : c.curRate ≠ 0) (hrtt : ev.evType ≠ .rtt) : ¬ Restarts c ev := by
  rintro (h | h)
  · exact h0 h
  · exact hrtt h.2.1

theorem watchStep_restarts (h : Restarts w.flow.ctx ev) : Inv (watchStep b param w ev) := by
  unfold watchStep
  rw [if_pos h, if_pos h]
  generalize hs' : rttTemplateAlgo b param w.flow ev = s'
  obtain ⟨hcnt, hpsn, hreq⟩ :
      s'.ctx.abortCnt = 0 ∧ s'.ctx.rttMeasPsn = 0 ∧ s'.ctx.rttReqToRttSent = 1 := by
    rw [← hs']
    rcases h with h0 | hacc
    · unfold rttTemplateAlgo
      dsimp only
      rw [if_pos h0]
      exact ⟨rfl, rfl, rfl⟩
    · obtain ⟨hpsn, hcnt, -⟩ := @newRate_ctx b param ev w.flow.ctx.curRate w.flow.ctx
      rw [algo_acceptedRtt hacc]
      exact ⟨hcnt, hpsn, rfl⟩
  refine ⟨?_, ?_, fun _ => rfl, fun _ => .inl hreq⟩
  · dsimp only
    rw [hcnt]
    rfl
  · dsimp only
    rw [hpsn]
    exact ⟨nofun, fun hne => absurd rfl hne⟩

theorem watchStep_report (h : Inv w) (h0 : w.flow.ctx.curRate ≠ 0) (hev : ev.evType = .roceTx)
    (hsent : ev.rttReqSent ∧ w.flow.ctx.rttMeasPsn = 0) :
    Inv (watchStep b param w ev) := by
  have hrestart : ¬ Restarts w.flow.ctx ev := not_restarts h0 (by rw [hev]; nofun)
  have habort : ¬ Aborts w.flow.ctx ev := fun h => h.1.2.2 hsent
  unfold watchStep
  rw [if_neg hrestart, if_neg hrestart, if_neg habort, if_pos ⟨h0, hev, hsent.1⟩]
  generalize hs' : rttTemplateAlgo b param w.flow ev = s'
  obtain ⟨hcnt, hpsn⟩ : s'.ctx.abortCnt = w.flow.ctx.abortCnt ∧ s'.ctx.rttMeasPsn = 1 := by
    rw [← hs', algo_roceTx h0 hev, handleRoceTx, if_pos hsent]
    exact ⟨rfl, rfl⟩
  refine ⟨hcnt ▸ h.abortCnt, ⟨fun _ => ?_, fun _ => rfl⟩, fun hz => ?_, fun hz => ?_⟩
  · dsimp only
    rw [hpsn]
    decide
  all_goals exact absurd (hpsn.symm.trans hz) (by decide)

theorem handleRoceTx_checks {c : Ctx} (hsent : ¬ (ev.rttReqSent ∧ c.rttMeasPsn = 0)) {rate : UInt32}
    {c' : Ctx} (h : (handleRoceTx ev rate c).1 = c') :
    c'.rttMeasPsn = c.rttMeasPsn ∧ c'.abortCnt = (if TimedOut c ev then c.abortCnt + 1 else c.abortCnt) ∧
      (c'.rttReqToRttSent = 1 ∨ ¬ reqToRttSent c > 2 ∧ c'.rttReqToRttSent = reqToRttSent c) := by
  rw [handleRoceTx, if_neg hsent] at h
  split at h
  · cases h
    exact ⟨rfl, rfl, .inl rfl⟩
  · rename_i hno
    cases h
    exact ⟨rfl, (if_neg fun ht => hno (.inl ht)).symm, .inr ⟨fun hgt => hno (.inr hgt), rfl⟩⟩

theorem watchStep_checks (h : Inv w) (hc : ChecksTimeout w.flow.ctx ev) :
    Inv (watchStep b param w ev) := by
  obtain ⟨h0, hev, hsent⟩ := id hc
  have hrestart : ¬ Restarts w.flow.ctx ev := not_restarts h0 (by rw [hev]; nofun)
  unfold watchStep
  rw [if_neg hrestart, if_neg hrestart]
  generalize hs' : rttTemplateAlgo b param w.flow ev = s'
  have hctx : (handleRoceTx ev w.flow.ctx.curRate w.flow.ctx).1 = s'.ctx := by
    rw [← hs', algo_roceTx h0 hev]
  obtain ⟨hpsn, hcnt, hreq⟩ := handleRoceTx_checks hsent hctx
  refine ⟨?_, ?_, fun hz => ?_, fun hz => ?_⟩
  · dsimp only
    rw [hcnt]
    by_cases ht : TimedOut w.flow.ctx ev
    · rw [if_pos ht, if_pos ⟨hc, ht⟩, UInt8.toNat_add, h.abortCnt]
      show (w.aborts % 256 + 1) % 256 = (w.aborts + 1) % 256
      omega
    · rw [if_neg ht, if_neg fun ha => ht ha.2]
      exact h.abortCnt
  · dsimp only
    rw [hpsn]
    split
    · rename_i hrep
      exact ⟨fun _ hz => hsent ⟨hrep.2.2, hz⟩, fun _ => rfl⟩
    · exact h.reported
  · have hz' : w.flow.ctx.rttMeasPsn = 0 := hpsn.symm.trans hz
    dsimp only
    rw [if_neg fun ha => not_timedOut hz' ha.2]
    exact h.notAborted hz'
  · have hz' : w.flow.ctx.rttMeasPsn = 0 := hpsn.symm.trans hz
    have hnext : reqToRttSent w.flow.ctx = w.flow.ctx.rttReqToRttSent + 1 := if_pos hz'
    rcases hreq with hone | ⟨hno, hreq⟩
    · exact .inl hone
    rcases h.waiting hz' with h1 | h2
    · right
      dsimp only
      rw [hreq, hnext, h1]
      rfl
    · exact absurd (by rw [hnext, h2]; decide) hno

theorem watchStep_rest (h : Inv w) (h0 : w.flow.ctx.curRate ≠ 0) (htx : ev.evType ≠ .roceTx)
    (hrtt : ev.evType ≠ .rtt) : Inv (watchStep b param w ev) := by
  have hrestart := not_restarts h0 hrtt
  unfold watchStep
  rw [if_neg hrestart, if_neg hrestart, if_neg fun ha => htx ha.1.2.1, if_neg fun hr => htx hr.2.1]
  generalize hs' : rttTemplateAlgo b param w.flow ev = s'
  obtain ⟨hcnt, hpsn, hreq⟩ : s'.ctx.abortCnt = w.flow.ctx.abortCnt ∧
      s'.ctx.rttMeasPsn = w.flow.ctx.rttMeasPsn ∧
      s'.ctx.rttReqToRttSent = w.flow.ctx.rttReqToRttSent := by
    rw [← hs', rttTemplateAlgo]
    dsimp only
    rw [if_neg h0]
    cases hev : ev.evType with
    | roceTx => exact absurd hev htx
    | rtt => exact absurd hev hrtt
    | roceCnp | roceNack | other => exact ⟨rfl, rfl, rfl⟩
  exact ⟨hcnt ▸ h.abortCnt, hpsn ▸ h.reported, fun hz => h.notAborted (hpsn.symm.trans hz),
    fun hz => hreq ▸ h.waiting (hpsn.symm.trans hz)⟩

theorem watchStep_inv (ev : Event) (h : w.flow.ctx.curRate = 0 ∨ Inv w) :
    Inv (watchStep b param w ev) := by
  by_cases h0 : w.flow.ctx.curRate = 0
  · exact watchStep_restarts (.inl h0)
  have hinv : Inv w := h.resolve_left h0
  by_cases htx : ev.evType = .roceTx
  · by_cases hsent : ev.rttReqSent ∧ w.flow.ctx.rttMeasPsn = 0
    · exact watchStep_report hinv h0 htx hsent
    · exact watchStep_checks hinv ⟨h0, htx, hsent⟩
  by_cases hrtt : ev.evType = .rtt
  · exact watchStep_restarts (.inr ⟨h0, hrtt, hinv.not_refused⟩)
  · exact watchStep_rest hinv h0 htx hrtt

theorem watch_inv (hzero : s.ctx = Ctx.zero) (events : List Event) :
    (watch b param s events).flow.ctx.curRate = 0 ∨ Inv (watch b param s events) := by
  induction events using reverseRecOn with
  | nil =>
    left
    show s.ctx.curRate = 0
    rw [hzero]
    rfl
  | append_singleton events ev ih =>
    rw [watch_concat]
    exact .inr (watchStep_inv ev ih)

/-- **The check at the head of `rtt_template_handle_roce_rtt` never fires.** -/
theorem rtt_never_refused (hzero : s.ctx = Ctx.zero) (events : List Event)
    (h0 : (ctxAfter b param s events).curRate ≠ 0) (hev : ev.evType = .rtt) :
    AcceptedRtt (ctxAfter b param s events) ev := by
  rw [← watch_ctx] at h0 ⊢
  exact ⟨h0, hev, ((watch_inv hzero events).resolve_left h0).not_refused⟩

/-! ## The back-off -/

section BackOff

variable (b param s)

/-- The shift is by less than 32 and loses no bit, and until the measurement is answered the threshold
does not fall from one abort to a later one. -/
def BackOff : Prop :=
  (∀ pre ev post, events = pre ++ ev :: post → ChecksTimeout (ctxAfter b param s pre) ev →
    (ctxAfter b param s pre).abortCnt.toNat < 32 ∧
      300000 * 2 ^ (ctxAfter b param s pre).abortCnt.toNat < 2 ^ 32) ∧
  ∀ pre ev mid ev' post, events = pre ++ ev :: (mid ++ ev' :: post) →
    Aborts (ctxAfter b param s pre) ev → Aborts (ctxAfter b param s (pre ++ ev :: mid)) ev' →
    (∀ m m' e, mid = m ++ e :: m' → ¬ Restarts (ctxAfter b param s (pre ++ ev :: m)) e) →
    abortThreshold (ctxAfter b param s pre).abortCnt ≤
      abortThreshold (ctxAfter b param s (pre ++ ev :: mid)).abortCnt

/-- No event is compared with the threshold after the fourteenth abort of one measurement. -/
def FewAborts : Prop :=
  ∀ pre ev post, events = pre ++ ev :: post → ChecksTimeout (ctxAfter b param s pre) ev →
    (watch b param s pre).aborts ≤ 13

variable {b param s}

theorem watchStep_aborts (w : Watch) (ev : Event) : (watchStep b param w ev).aborts ≤ w.aborts ∨
      Aborts w.flow.ctx ev ∧ (watchStep b param w ev).aborts = w.aborts + 1 := by
  unfold watchStep
  dsimp only
  split
  · exact .inl (zero_le _)
  · split
    · rename_i ha
      exact .inr ⟨ha, rfl⟩
    · exact .inl (Nat.le_refl _)

theorem exists_abort {k : Nat} (events : List Event) (h : k < (watch b param s events).aborts) :
    ∃ pre ev post, events = pre ++ ev :: post ∧ (watch b param s pre).aborts = k ∧
      Aborts (ctxAfter b param s pre) ev := by
  induction events using reverseRecOn with
  | nil => exact absurd h (not_lt_zero _)
  | append_singleton events ev ih =>
    rw [watch_concat] at h
    by_cases hk : k < (watch b param s events).aborts
    · obtain ⟨pre, ev', post, hev, hcount, habort⟩ := ih hk
      exact ⟨pre, ev', post ++ [ev], by rw [hev, append_assoc, cons_append], hcount, habort⟩
    · rcases @watchStep_aborts b param (watch b param s events) ev with hle | ⟨ha, hsucc⟩
      · omega
      · rw [watch_ctx] at ha
        exact ⟨events, ev, [], rfl, by omega, ha⟩

theorem aborts_mono (pre : List Event) (ev : Event) (mid : List Event)
    (hev : ¬ Restarts (ctxAfter b param s pre) ev)
    (hmid : ∀ m m' e, mid = m ++ e :: m' → ¬ Restarts (ctxAfter b param s (pre ++ ev :: m)) e) :
    (watch b param s pre).aborts ≤ (watch b param s (pre ++ ev :: mid)).aborts := by
  have hstep : ∀ (es : List Event) (e : Event), ¬ Restarts (ctxAfter b param s es) e →
      (watch b param s es).aborts ≤ (watch b param s (es ++ [e])).aborts := by
    intro es e hno
    rw [← watch_ctx] at hno
    rw [watch_concat, watchStep]
    dsimp only
    rw [if_neg hno]
    split <;> omega
  induction mid using reverseRecOn with
  | nil => exact hstep pre ev hev
  | append_singleton mid e ih =>
    have hle := ih fun m m' e' hm => hmid m (m' ++ [e]) e' (by rw [hm, append_assoc, cons_append])
    have hlast := hstep (pre ++ ev :: mid) e (hmid mid [] e rfl)
    rw [append_assoc, cons_append] at hlast
    exact Nat.le_trans hle hlast

theorem abortThreshold_toNat {cnt : UInt8} (h : cnt.toNat ≤ 13) :
    (abortThreshold cnt).toNat = 300000 * 2 ^ cnt.toNat := by
  have hpow : 2 ^ cnt.toNat ≤ 2 ^ 13 := Nat.pow_le_pow_right (by decide) h
  unfold abortThreshold
  rw [UInt32.toNat_shiftLeft, UInt8.toNat_toUInt32, mod_eq_of_lt (show cnt.toNat < 32 by omega),
    shiftLeft_eq]
  show 300000 * 2 ^ cnt.toNat % 2 ^ 32 = _
  exact mod_eq_of_lt (by omega)

theorem abortCnt_eq (hzero : s.ctx = Ctx.zero) {pre : List Event}
    (h0 : (ctxAfter b param s pre).curRate ≠ 0) (hfew : (watch b param s pre).aborts < 256) :
    (ctxAfter b param s pre).abortCnt.toNat = (watch b param s pre).aborts := by
  rw [← watch_ctx] at h0 ⊢
  rw [((watch_inv hzero pre).resolve_left h0).abortCnt, mod_eq_of_lt hfew]

/-- **The back-off is one exactly if no event is compared with the threshold after the fourteenth abort
of one measurement.** -/
theorem backOff_iff (hzero : s.ctx = Ctx.zero) (events : List Event) :
    BackOff b param s events ↔ FewAborts b param s events := by
  constructor
  · rintro ⟨hshift, -⟩ pre ev post hev hchecks
    by_contra hmany
    -- the first event that is compared after the fourteenth abort
    obtain ⟨pre', ev', post', hev', hcount, hchecks'⟩ : ∃ pre' ev' post', events = pre' ++ ev' :: post' ∧
        (watch b param s pre').aborts = 14 ∧ ChecksTimeout (ctxAfter b param s pre') ev' := by
      by_cases h14 : (watch b param s pre).aborts = 14
      · exact ⟨pre, ev, post, hev, h14, hchecks⟩
      · obtain ⟨pre', ev', post', hpre, hcount, habort⟩ :=
          @exists_abort b param s 14 pre (by omega)
        exact ⟨pre', ev', post' ++ ev :: post, by rw [hev, hpre, append_assoc, cons_append],
          hcount, habort.1⟩
    have hcnt := abortCnt_eq hzero hchecks'.1 (by omega : (watch b param s pre').aborts < 256)
    have hlost := (hshift pre' ev' post' hev' hchecks').2
    rw [hcnt, hcount] at hlost
    exact absurd hlost (by decide)
  · intro hfew
    have hcnt : ∀ pre ev post, events = pre ++ ev :: post → ChecksTimeout (ctxAfter b param s pre) ev →
        (ctxAfter b param s pre).abortCnt.toNat = (watch b param s pre).aborts ∧
          (watch b param s pre).aborts ≤ 13 := by
      intro pre ev post hev hchecks
      have hle := hfew pre ev post hev hchecks
      exact ⟨abortCnt_eq hzero hchecks.1 (by omega), hle⟩
    refine ⟨fun pre ev post hev hchecks => ?_, fun pre ev mid ev' post hev ha ha' hmid => ?_⟩
    · obtain ⟨heq, hle⟩ := hcnt pre ev post hev hchecks
      have hpow : 2 ^ (ctxAfter b param s pre).abortCnt.toNat ≤ 2 ^ 13 :=
        Nat.pow_le_pow_right (by decide) (by omega)
      omega
    · obtain ⟨heq, hle⟩ := hcnt pre ev _ hev ha.1
      obtain ⟨heq', hle'⟩ := hcnt (pre ++ ev :: mid) ev' post
        (by rw [hev, append_assoc, cons_append]) ha'.1
      have hmono := aborts_mono pre ev mid (not_restarts ha.1.1 (by rw [ha.1.2.1]; nofun)) hmid
      rw [UInt32.le_iff_toNat_le, abortThreshold_toNat (by omega), abortThreshold_toNat (by omega)]
      exact Nat.mul_le_mul_left _ (Nat.pow_le_pow_right (by decide) (by omega))

end BackOff

def requestSent : List Event := [⟨.roceTx, 0, 0, 0, 0, 0, 0, 0⟩, ⟨.roceTx, 4, 0, 0, 0, 0, 0, 0⟩]

def lateTx : Event := ⟨.roceTx, 0, 4000000000, 0, 0, 0, 0, 0⟩

def freshFlow : Flow := ⟨Ctx.zero, ⟨0, 0⟩, none⟩

def defaultParams : Params := fun i => (paramDef i).default

theorem aborts_le_length (b : Build) (param : Params) (s : Flow) (events : List Event) :
    (watch b param s events).aborts ≤ events.length := by
  induction events using reverseRecOn with
  | nil => exact Nat.le_refl _
  | append_singleton events ev ih =>
    rw [watch_concat, length_append, length_singleton]
    rcases @watchStep_aborts b param (watch b param s events) ev with hle | ⟨-, hsucc⟩ <;> omega

theorem backOff_iff_lateTx :
    BackOff plainBuild defaultParams freshFlow (requestSent ++ List.replicate 3 lateTx ++ [slowRtt]) ∧
      (watch plainBuild defaultParams freshFlow (requestSent ++ List.replicate 3 lateTx)).aborts = 3 := by
  refine ⟨(backOff_iff rfl _).2 fun pre ev post hev _ => ?_, by decide⟩
  have hlen := congrArg length hev
  have hshort : (requestSent ++ replicate 3 lateTx ++ [slowRtt]).length = 6 := rfl
  have haborts := aborts_le_length plainBuild defaultParams freshFlow pre
  rw [hshort, length_append, length_cons] at hlen
  omega

/-- **The threshold falls.**  After fourteen TX events without an answer the counter is 14, and the
threshold is 620232704 after it was 2457600000; after 27 it is 0. -/
theorem backOff_lost :
    ¬ BackOff plainBuild defaultParams freshFlow (requestSent ++ List.replicate 15 lateTx) ∧
      (ctxAfter plainBuild defaultParams freshFlow (requestSent ++ List.replicate 13 lateTx)).abortCnt =
        13 ∧ abortThreshold 13 = 2457600000 ∧
      (ctxAfter plainBuild defaultParams freshFlow (requestSent ++ List.replicate 14 lateTx)).abortCnt =
        14 ∧ abortThreshold 14 = 620232704 ∧ abortThreshold 27 = 0 := by
  refine ⟨?_, by decide, by decide, by decide, by decide, by decide⟩
  rintro ⟨hshift, -⟩
  have hchecks : ChecksTimeout
      (ctxAfter plainBuild defaultParams freshFlow (requestSent ++ replicate 14 lateTx)) lateTx :=
    ⟨by decide, by decide, by decide⟩
  have hlost := (hshift (requestSent ++ replicate 14 lateTx) lateTx [] (by decide) hchecks).2
  exact absurd hlost (by decide)

/-! ## Stale answers -/

section Stale

variable (b param s)

/-- An RTT event although no TX event has reported a request as sent since the last RTT event, or since
the flow started. -/
def StaleRtt (w : Watch) (ev : Event) : Prop :=
  w.flow.ctx.curRate ≠ 0 ∧ ev.evType = .rtt ∧ w.reported = false

structure Untouched (c c' : Ctx) : Prop where
  curRate : c'.curRate = c.curRate
  rtt : c'.rtt = c.rtt
  startDelay : c'.startDelay = c.startDelay
  abortCnt : c'.abortCnt = c.abortCnt
  rttMeasPsn : c'.rttMeasPsn = c.rttMeasPsn
  rttReqToRttSent : c'.rttReqToRttSent = c.rttReqToRttSent

def StaleIgnored : Prop :=
  ∀ pre ev post, events = pre ++ ev :: post → StaleRtt (watch b param s pre) ev →
    Untouched (ctxAfter b param s pre) (ctxAfter b param s (pre ++ [ev]))

def Congested (param : Params) (c : Ctx) (rtt : UInt32) : Prop :=
  c.wasCnp ∨ param .maxDelay ≤ rtt ∨ param .baseRtt < rtt

instance (param : Params) (c : Ctx) (rtt : UInt32) : Decidable (Congested param c rtt) := by
  unfold Congested
  infer_instance

/-- The event has the round trip time that is in the context and finds the rate at the end to which it
would move it, and an even number of TX events came since the last RTT event. -/
def Repeats (c : Ctx) (ev : Event) : Prop :=
  measuredRtt b ev = c.rtt ∧
    c.curRate = (if Congested param c (measuredRtt b ev) then param .minRate else maxRate) ∧
    c.rttReqToRttSent = 1

def StaleRepeats : Prop :=
  ∀ pre ev post, events = pre ++ ev :: post → StaleRtt (watch b param s pre) ev →
    Repeats b param (ctxAfter b param s pre) ev

variable {b param s}

theorem decrease_pos {c : Ctx} {rtt k : UInt32} {isHighUtil : Bool}
    (h : decrease? param c rtt isHighUtil = some k) : 0 < k.toNat := by
  unfold decrease? at h
  split_ifs at h <;> cases h <;> decide

theorem decrease_eq_none {c : Ctx} {rtt : UInt32} {isHighUtil : Bool} :
    decrease? param c rtt isHighUtil = none ↔ ¬ Congested param c rtt := by
  unfold decrease? Congested
  grind

theorem decrease_kept {c : Ctx} {rtt k curRate : UInt32} {isHighUtil : Bool} (hparam : Registered param)
    (hfactor : param .updateFactor ≤ 6553) (hpos : 0 < curRate) (hle : curRate ≤ maxRate)
    (h : decrease? param c rtt isHighUtil = some k) (norm : UInt32) :
    (algorithmCore b c rtt curRate param isHighUtil norm).1 = curRate ↔ curRate = param .minRate := by
  obtain ⟨hten, hrate⟩ := algorithmCore_decrease (b := b) h curRate norm
  have hpos : 0 < curRate.toNat := hpos
  have hle : curRate.toNat ≤ 2 ^ 20 := hle
  have hfactor : (param .updateFactor).toNat ≤ 6553 := hfactor
  have hone : 1 ≤ (param .updateFactor).toNat := (hparam .updateFactor).1
  have hstep : 0 < k.toNat * (param .updateFactor).toNat := Nat.mul_pos (decrease_pos h) hone
  -- the product is strictly below the rate
  have hlow : (2 ^ 16 - k.toNat * (param .updateFactor).toNat) * curRate.toNat / 2 ^ 16 <
      curRate.toNat := by
    rw [Nat.div_lt_iff_lt_mul (by decide), Nat.mul_comm]
    exact Nat.mul_lt_mul_of_pos_left (Nat.sub_lt (by decide) hstep) hpos
  rw [← UInt32.toNat_inj, ← UInt32.toNat_inj, hrate, fxpMult_decFactor hten hfactor]
  omega

theorem increase_kept {c : Ctx} {rtt curRate : UInt32} {isHighUtil : Bool} (hparam : Registered param)
    (hnp : b.npRxRate = false) (hle : curRate ≤ maxRate)
    (h : decrease? param c rtt isHighUtil = none) (norm : UInt32) :
    (algorithmCore b c rtt curRate param isHighUtil norm).1 = curRate ↔ curRate = maxRate := by
  obtain ⟨hmin, hmax⟩ := hparam .ai
  have hone : 1 ≤ (param .ai).toNat := hmin
  have hai : (param .ai).toNat ≤ 2 ^ 20 := hmax
  have hlow : (param .minRate).toNat ≤ 2 ^ 20 := (hparam .minRate).2
  have hle : curRate.toNat ≤ 2 ^ 20 := hle
  have htop : maxRate.toNat = 2 ^ 20 := rfl
  have hsum : (curRate + param .ai).toNat = curRate.toNat + (param .ai).toNat := by
    rw [UInt32.toNat_add, mod_eq_of_lt (by omega)]
  have hcore : (algorithmCore b c rtt curRate param isHighUtil norm).1 =
      let top := if curRate + param .ai > maxRate then maxRate else curRate + param .ai
      if top < param .minRate then param .minRate else top := by
    unfold decrease? at h
    unfold algorithmCore
    split_ifs at h
    simp only [*, if_false, Bool.false_eq_true, false_and]
  rw [hcore, ← UInt32.toNat_inj, ← UInt32.toNat_inj]
  dsimp only
  simp only [UInt32.lt_iff_toNat_lt, gt_iff_lt, apply_ite UInt32.toNat, hsum, htop]
  split <;> split <;> omega

/-- **The algorithm keeps a rate** exactly if it is the one at the end to which it moves it. -/
theorem newRate_kept {ev : Event} {c : Ctx} (hparam : Registered param)
    (hfactor : param .updateFactor ≤ 6553) (hnp : b.npRxRate = false) (hpos : 0 < c.curRate)
    (hle : c.curRate ≤ maxRate) :
    (newRate b param ev c.curRate c).1 = c.curRate ↔
      c.curRate = if Congested param c (measuredRtt b ev) then param .minRate else maxRate := by
  cases hd : decrease? param (measured b ev c) (measuredRtt b ev) (isHighTxUtil b ev) with
  | none =>
    have hno : ¬ Congested param c (measuredRtt b ev) := decrease_eq_none.1 hd
    rw [if_neg hno]
    exact increase_kept hparam hnp hle hd _
  | some k =>
    have hyes : Congested param c (measuredRtt b ev) := by
      by_contra hno
      have hnone : decrease? param (measured b ev c) (measuredRtt b ev) (isHighTxUtil b ev) = none :=
        decrease_eq_none.2 hno
      rw [hd] at hnone
      cases hnone
    rw [if_pos hyes]
    exact decrease_kept hparam hfactor hpos hle hd _

theorem untouched_iff (hzero : s.ctx = Ctx.zero) {pre : List Event} {ev : Event}
    (h : StaleRtt (watch b param s pre) ev) :
    Untouched (ctxAfter b param s pre) (ctxAfter b param s (pre ++ [ev])) ↔
      measuredRtt b ev = (ctxAfter b param s pre).rtt ∧
        (newRate b param ev (ctxAfter b param s pre).curRate (ctxAfter b param s pre)).1 =
          (ctxAfter b param s pre).curRate ∧
        (ctxAfter b param s pre).rttReqToRttSent = 1 := by
  obtain ⟨h0, hev, hrep⟩ := h
  have hinv : Inv (watch b param s pre) := (watch_inv hzero pre).resolve_left h0
  have hpsn : (watch b param s pre).flow.ctx.rttMeasPsn = 0 := by
    by_contra hne
    rw [hinv.reported.mpr hne] at hrep
    cases hrep
  have hcnt : (watch b param s pre).flow.ctx.abortCnt = 0 := by
    rw [← UInt8.toNat_inj, hinv.abortCnt, hinv.notAborted hpsn]
    rfl
  rw [watch_ctx] at h0 hpsn hcnt
  have hacc : AcceptedRtt (runAlgo b param s pre).ctx ev := rtt_never_refused hzero pre h0 hev
  have hnew : ctxAfter b param s (pre ++ [ev]) =
      { (newRate b param ev (ctxAfter b param s pre).curRate (ctxAfter b param s pre)).2 with
        rttReqToRttSent := 1
        curRate := (newRate b param ev (ctxAfter b param s pre).curRate (ctxAfter b param s pre)).1 } := by
    unfold ctxAfter
    rw [runAlgo_concat, algo_acceptedRtt hacc]
  obtain ⟨hpsn', hcnt', hrtt', hstart'⟩ := @newRate_ctx b param ev
    (ctxAfter b param s pre).curRate (ctxAfter b param s pre)
  rw [hnew]
  constructor
  · intro hu
    exact ⟨hrtt'.symm.trans hu.rtt, hu.curRate, hu.rttReqToRttSent.symm⟩
  · rintro ⟨hrtt, hrate, hreq⟩
    exact ⟨hrate, hrtt'.trans hrtt, hstart', hcnt'.trans hcnt.symm, hpsn'.trans hpsn.symm, hreq.symm⟩

end Stale

def fastRtt : Event := ⟨.rtt, 0, 10000, 0, 0, 0, 0, 0⟩

end Doca.Pcc
