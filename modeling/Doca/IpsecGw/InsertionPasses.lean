import Doca.IpsecGw.RuleEntries
import Doca.IpsecGw.InsertionQueue

/-!
# The queue of the entries of a rule

`RuleEntries.lean` has what the entries of a pass contain, `InsertionQueue.lean` how they are flushed and
waited for.  A pass that succeeds in the first model does so in the second one, with the same status objects
and the same flags of its last entry: `addEncryptPass_ok`, `addDecryptPass_ok`.
-/

namespace Doca.IpsecGw.Insertion

open Doca.Lib Doca.Lib.Prog Function

/-- The calls succeed, and complete the entries that DOCA Flow completes at its call `n - k`. -/
structure Answers (flow : FlowEnv) (env : QueueEnv) (k : Nat) : Prop where
  code : ∀ n, env.code n = .success
  process : ∀ (s : Insertion) o n, s.calls = n + k →
    (flow.entriesProcess n (s.status o)).2 = completed env false s o o

structure Follows (k : Nat) (status : StatusObject → EntriesStatus) (o : StatusObject) (f : Flow)
    (s : Insertion) : Prop where
  calls : s.calls = f.calls + k
  status : s.status = status
  last : f.flags.getLast? = some (s.last o)

variable {flow : FlowEnv} {env : QueueEnv} {k k' nbRules i : Nat} {o : StatusObject} {f f' : Flow}
variable {st st' : EntriesStatus} {status : StatusObject → EntriesStatus} {flags : FlowFlags} {cfg : Config}
variable {s : Insertion} {e : PipeEntry} {u : Unit} {Z : Option DocaError → Insertion → Prop}

theorem Follows.withCount (h : Follows k status o f s) (n : Nat) : Follows k (update status o
    { status o with entriesInQueue := (status o).entriesInQueue + n }) o f (s.withCount o n) :=
  ⟨h.calls, by rw [← h.status]; rfl, h.last⟩

theorem cryptoEncap_calls {rule : EncryptRule} {encap : List UInt8}
    (h : cryptoEncap cfg rule f = some (.ok encap, f')) : f'.calls = f.calls := by
  unfold cryptoEncap at h
  split at h
  · split at h <;> cases h <;> rfl
  all_goals cases h; rfl

section

variable (ha : Answers flow env k)

include ha

theorem Follows.processed (h : Follows k (update status o st) o f s)
    (hcall : call (flow.entriesProcess f.calls st).1 id f = some (.ok u, f')) :
    Follows k (update status o (flow.entriesProcess f.calls st).2) o f'
      { s.processed env false o with calls := s.calls + 1 } := by
  have hst : s.status o = st := by rw [h.status, update_self]
  rw [call_ok hcall, ← hst, ha.process s o f.calls h.calls]
  refine ⟨(congrArg (· + 1) h.calls).trans (Nat.add_right_comm ..), funext fun o' => ?_, h.last⟩
  by_cases ho : o' = o
  · subst ho
    rw [update_self]
    rfl
  · rw [update_of_ne ho, ← update_of_ne ho st status, ← h.status]
    exact if_neg (by simp [ho])

theorem wp_processIf {p : Nat → Prop} [DecidablePred p] (hf : Follows k (update status o st) o f s)
    (h : (if p st.entriesInQueue then IpsecGw.processEntries flow st else pure st) f = some (.ok st', f')) :
    (if p (s.count o) then processEntries env false o else pure ()).wp
      (fun _ => Follows k (update status o st') o f') Z s := by
  have hst : s.status o = st := by rw [hf.status, update_self]
  rw [count, hst]
  rw [ite_ok, pure_ok] at h
  obtain ⟨hp, h⟩ | ⟨hp, rfl, rfl⟩ := h
  · simp only [IpsecGw.processEntries, entriesProcess, bind_ok, gets_ok, ite_ok, fail_ok, pure_ok, and_false,
      false_or] at h
    obtain ⟨_, _, ⟨_, _, ⟨rfl, rfl⟩, _, _, hcall, rfl, rfl⟩, hok, rfl, rfl⟩ := h
    have hf' := hf.processed ha hcall
    have hdone := ha.process s o f.calls hf.calls
    rw [hst] at hdone
    rw [hdone, not_or] at hok
    rw [if_pos hp]
    exact wp_processEntries_quiet ha.code (Bool.eq_false_of_not_eq_true hok.1) hok.2 hf'
  · rw [if_neg hp, wp_pure]
    exact hf

theorem wp_request_ok {Q : Unit → Insertion → Prop} (hQ : Q () { s with calls := s.calls + 1 }) :
    (request env).wp Q Z s :=
  wp_request.mpr ⟨fun _ => hQ, fun h => absurd (ha.code _) h⟩

variable (hs : s.calls = f.calls + k)

include hs

theorem wp_addEntry_ok (h : pipeAddEntry flow flags e f = some (.ok u, f')) :
    (addEntry env o flags).wp (fun _ => Follows k s.status o f') Z s := by
  rw [call_ok h, addEntry, wp_bind]
  refine wp_request_ok ha ⟨(congrArg (· + 1) hs).trans (Nat.add_right_comm ..), rfl, ?_⟩
  simp [withEntry]

theorem wp_enqueue_ok (h : (do pipeAddEntry flow flags e; enqueued flow (s.status o)) f = some (.ok st, f')) :
    (enqueue env false o flags).wp (fun _ => Follows k (update s.status o st) o f') Z s := by
  rw [bind_ok] at h
  obtain ⟨_, f₁, h₁, h₂⟩ := h
  exact wp_seq (wp_addEntry_ok ha hs h₁) fun _ s₁ hf =>
    wp_processIf (p := (· = QUEUE_DEPTH)) ha (hf.withCount 1) h₂

theorem wp_addBadSyndromePipeEntry_ok {rule : DecryptRule} {ruleId : Nat}
    (h : IpsecGw.addBadSyndromePipeEntry flow rule ruleId flags f = some (.ok u, f')) :
    (addBadSyndromePipeEntry env flags).wp (fun _ => Follows k s.status .crypto f') Z s := by
  simp only [IpsecGw.addBadSyndromePipeEntry, bind_ok] at h
  obtain ⟨_, f₁, h₁, _, f₂, h₂, _, f₃, h₃, h₄⟩ := h
  refine wp_seq (wp_addEntry_ok ha hs h₁) fun _ s₁ hf₁ => ?_
  refine wp_seq (wp_addEntry_ok ha hf₁.calls h₂) fun _ s₂ hf₂ => ?_
  refine wp_seq (wp_addEntry_ok ha hf₂.calls h₃) fun _ s₃ hf₃ => ?_
  rw [← hf₁.status, ← hf₂.status, ← hf₃.status]
  exact wp_addEntry_ok ha hf₃.calls h₄

/-- **A pass of `add_decrypt_entries`** in both models. -/
theorem addDecryptPass_ok {rule : DecryptRule} {nbEncrypt ruleId : Nat}
    (h : addDecryptEntriesPass flow cfg rule nbEncrypt (i + 1 = nbRules) ruleId (s.status .crypto) f =
      some (.ok st, f')) :
    (addDecryptPass env false cfg.debugMode nbRules i).wp
      (fun _ => Follows k (update s.status .crypto st) .crypto f') Z s := by
  simp only [addDecryptEntriesPass, decryptRuleEntries, createIpsecDecryptSharedObject, bind_ok,
    decide_eq_true_eq] at h
  obtain ⟨st₁, f₁, ⟨_, f₀, h₁, _, f₂, h₂, h₃⟩, h₄⟩ := h
  have hs₁ : s.calls + 1 = f₀.calls + k := by
    rw [call_ok h₁, hs]
    exact Nat.add_right_comm ..
  rw [addDecryptPass, wp_bind, wp_gets, wp_bind]
  refine wp_request_ok ha (wp_seq (wp_addEntry_ok ha hs₁ h₂) fun _ s₂ hf₂ => ?_)
  have hf := hf₂.withCount 1
  rw [wp_bind, wp_modify]
  cases hdebug : cfg.debugMode with
  | false =>
    simp only [hdebug, pure_ok, Bool.false_eq_true, if_false] at h₃
    obtain ⟨rfl, rfl⟩ := h₃
    exact wp_processIf (p := (QUEUE_DEPTH - 8 ≤ ·)) ha hf h₄
  | true =>
    simp only [hdebug, if_true, bind_ok, pure_ok] at h₃
    obtain ⟨_, f₃, h₃, rfl, rfl⟩ := h₃
    refine wp_seq (wp_addBadSyndromePipeEntry_ok ha hf.calls h₃) fun _ s₃ hf₃ => ?_
    have hf' := hf₃.withCount NUM_OF_SYNDROMES
    rw [hf.status, update_self, update_idem] at hf'
    exact wp_processIf (p := (QUEUE_DEPTH - 8 ≤ ·)) ha hf' h₄

end

section Encrypt

variable {Table : Type} {hash : RteHash Table} {table : Table} {rule : EncryptRule}
variable (hk : k' = k + (splitsSourceIp cfg rule).toNat) (ha : Answers flow env k') (hs : s.calls = f.calls + k)

include hk ha hs

theorem wp_addFiveTupleMatchEntry_ok
    (h : IpsecGw.addFiveTupleMatchEntry flow hash table cfg rule nbRules i (s.status .hairpin) f =
      some (.ok st, f')) :
    (addFiveTupleMatchEntry env false (splitsSourceIp cfg rule) nbRules i).wp
      (fun _ => Follows k' (update s.status .hairpin st) .hairpin f') Z s := by
  rw [IpsecGw.addFiveTupleMatchEntry, addSourceIp, bind_ok] at h
  obtain ⟨r, f₁, h₁, h₂⟩ := h
  cases hsplit : splitsSourceIp cfg rule with
  | false =>
    simp only [hsplit, Bool.false_eq_true, if_false, pure_ok, Bool.toNat_false, Nat.add_zero] at h₁ hk
    obtain ⟨rfl, rfl⟩ := h₁
    subst hk
    exact wp_enqueue_ok ha hs h₂
  | true =>
    simp only [hsplit, if_true, ite_ok, fail_ok, and_false, false_or, bind_ok, pure_ok] at h₁
    obtain ⟨_, st₁, _, h₁, rfl, rfl⟩ := h₁
    -- the lookup in the table of addresses counts as a call here
    have hs₁ : s.calls + 1 = f.calls + k' := by rw [hk, hsplit, hs]; rfl
    rw [addFiveTupleMatchEntry, if_pos rfl, wp_bind]
    refine wp_request_ok ha (wp_seq (wp_enqueue_ok ha hs₁ h₁) fun _ s₂ hf₂ => ?_)
    have hst : s₂.status .hairpin = st₁ := by rw [hf₂.status, update_self]
    rw [wp_bind, wp_gets, count, hst]
    rw [← hst] at h₂
    have hw := wp_enqueue_ok (Z := Z) ha hf₂.calls h₂
    rwa [hf₂.status, update_self, update_idem] at hw

/-- **A pass of `add_encrypt_entries`** in both models. -/
theorem addEncryptPass_ok {r : EntriesStatus × EntriesStatus}
    (h : addEncryptEntriesPass flow hash table cfg rule nbRules i (s.status .hairpin) (s.status .crypto) f =
      some (.ok r, f')) :
    (addEncryptPass env false (splitsSourceIp cfg rule) nbRules i).wp
      (fun _ => Follows k' (update (update s.status .hairpin r.1) .crypto r.2) .crypto f') Z s := by
  simp only [addEncryptEntriesPass, createIpsecEncryptSharedObject, bind_ok, pure_ok] at h
  obtain ⟨st₁, f₁, h₁, _, f₂, h₂, encap, f₃, h₃, _, f₄, h₄, st₂, _, h₅, rfl, rfl⟩ := h
  refine wp_seq (wp_addFiveTupleMatchEntry_ok hk ha hs h₁) fun _ s₁ hf₁ => ?_
  have hst : s₁.status .crypto = s.status .crypto := by rw [hf₁.status, update_of_ne (by decide)]
  have hs₁ : s₁.calls + 1 = f₃.calls + k' := by
    rw [cryptoEncap_calls h₃, call_ok h₂, hf₁.calls]
    exact Nat.add_right_comm ..
  rw [← hst] at h₄ h₅
  rw [wp_bind, ← hf₁.status]
  exact wp_request_ok ha (wp_enqueue_ok ha hs₁ (bind_ok.mpr ⟨_, f₄, h₄, h₅⟩))

end Encrypt

end Doca.IpsecGw.Insertion
