import Doca.IpsecGw.Flow

/-!
# The entry queue during the insertion of rules

Model of `add_encrypt_entries` (`flow_encrypt.c`) and `add_decrypt_entries` (`flow_decrypt.c`) as far as
the status objects and the flags of the entries are concerned, under any behaviour of DOCA Flow.  What
the entries contain is in `RuleEntries.lean`.

* `Insertion` — the status objects, the flags of the last entry of each, and what has been observed:
  the highest count, a full queue without progress, entries added after that, and pending entries that
  were waited for without a flush.
* `QueueEnv` — the code of every call, and how many pending entries a call of
  `doca_flow_entries_process` completes; those of the other object only if both ports are one.
* `Kept`, `Flushed` — the queue is never over-filled; a batch is flushed before it is waited for.

Principal results: `queueKept_iff`; `queueFlushed_iff` — the flag is chosen before the entry is added,
and for encrypt rules from the index of the rule in place of its position in the slice.
-/

namespace Doca.IpsecGw

open Doca.Lib Doca.Lib.Prog Nat

/-! ## The functions of the source -/

inductive StatusObject where
  | hairpin
  | crypto
  deriving DecidableEq

structure Insertion where
  status : StatusObject → EntriesStatus
  last : StatusObject → FlowFlags
  calls : Nat
  peak : Nat
  stalled : Bool
  overrun : Bool
  unflushed : Bool

structure QueueEnv where
  code : Nat → DocaError
  done : Insertion → StatusObject → StatusObject → Nat
  failed : Insertion → StatusObject → StatusObject → Bool

namespace Insertion

def start : Insertion := ⟨fun _ => .zero, fun _ => .noWait, 0, 0, false, false, false⟩

def count (s : Insertion) (o : StatusObject) : Nat := (s.status o).entriesInQueue

def withEntry (s : Insertion) (o : StatusObject) (flags : FlowFlags) : Insertion :=
  { s with last := Function.update s.last o flags, overrun := s.overrun || s.stalled }

def withCount (s : Insertion) (o : StatusObject) (n : Nat) : Insertion :=
  { s with
    status := Function.update s.status o { s.status o with entriesInQueue := s.count o + n }
    peak := max s.peak (s.count o + n) }

abbrev QueueProg := Prog Insertion (Option DocaError) Unit

variable (env : QueueEnv) (onePort : Bool)

variable (s : Insertion)

/-- The status objects after the callbacks of `doca_flow_entries_process` on the port of `o`. -/
def completed (o o' : StatusObject) : EntriesStatus :=
  if o' = o ∨ onePort = true then
    let n := min (env.done s o o') (s.count o')
    ⟨(s.status o').failure || (env.failed s o o' && 0 < n), (s.status o').nbProcessed + n, s.count o' - n⟩
  else s.status o'

variable (o : StatusObject)

def processed : Insertion :=
  { s with
    status := completed env onePort s o
    stalled := s.stalled || (s.count o = QUEUE_DEPTH ∧
      (completed env onePort s o o).entriesInQueue = QUEUE_DEPTH)
    unflushed := s.unflushed || (0 < s.count o ∧ s.last o = .waitForBatch) }

def request : QueueProg := fun s =>
  some (if env.code s.calls = .success then .ok () else .error (some (env.code s.calls)),
    { s with calls := s.calls + 1 })

def addEntry (flags : FlowFlags) : QueueProg := do
  request env
  modify fun s => s.withEntry o flags

def processEntries : QueueProg := do
  modify fun s => s.processed env onePort o
  request env
  let st ← gets fun s => s.status o
  if st.failure ∨ st.entriesInQueue = QUEUE_DEPTH then fail (some .badState) else pure ()

/-- `do { process_entries } while (entries_in_queue > 0)`, at most `fuel` times. -/
def processAll : Nat → QueueProg
  | 0 => fail none
  | fuel + 1 => do
    processEntries env onePort o
    let n ← gets fun s => s.count o
    if 0 < n then processAll fuel else pure ()

def enqueue (flags : FlowFlags) : QueueProg := do
  addEntry env o flags
  modify fun s => s.withCount o 1
  let n ← gets fun s => s.count o
  if n = QUEUE_DEPTH then processEntries env onePort o else pure ()

def addSrcIp6Entry : QueueProg := do
  let n ← gets fun s => s.count .hairpin
  enqueue env onePort .hairpin (flagsIf (n = QUEUE_DEPTH - 1))

/-- `add_five_tuple_match_entry`; `split` says that the source address has a pipe of its own. -/
def addFiveTupleMatchEntry (split : Bool) (nbRules i : Nat) : QueueProg := do
  if split then do
    request env
    addSrcIp6Entry env onePort
  let n ← gets fun s => s.count .hairpin
  enqueue env onePort .hairpin (entryFlags (i + 1 = nbRules) n)

def addEncryptPass (split : Bool) (nbRules ruleId : Nat) : QueueProg := do
  addFiveTupleMatchEntry env onePort split nbRules ruleId
  request env
  let n ← gets fun s => s.count .crypto
  enqueue env onePort .crypto (entryFlags (ruleId + 1 = nbRules) n)

def addEncryptEntries (split : Nat → Bool) (nbRules ruleOffset fuel : Nat) : QueueProg := do
  times (fun i => addEncryptPass env onePort (split (ruleOffset + i)) nbRules (ruleOffset + i)) nbRules
  processAll env onePort .crypto fuel
  processAll env onePort .hairpin fuel

def addBadSyndromePipeEntry (flags : FlowFlags) : QueueProg := do
  addEntry env .crypto .waitForBatch
  addEntry env .crypto .waitForBatch
  addEntry env .crypto .waitForBatch
  addEntry env .crypto flags

/-- One pass of the loop of `add_decrypt_entries`; the rule's index is not used for the queue. -/
def addDecryptPass (debug : Bool) (nbRules i : Nat) : QueueProg := do
  let n ← gets fun s => s.count .crypto
  let flags := decryptFlags (i + 1 = nbRules) n
  request env
  addEntry env .crypto (if debug then .waitForBatch else flags)
  modify fun s => s.withCount .crypto 1
  if debug then do
    addBadSyndromePipeEntry env flags
    modify fun s => s.withCount .crypto 4
  let n ← gets fun s => s.count .crypto
  if QUEUE_DEPTH - 8 ≤ n then processEntries env onePort .crypto else pure ()

def addDecryptEntries (debug : Bool) (nbRules fuel : Nat) : QueueProg := do
  times (addDecryptPass env onePort debug nbRules) nbRules
  processAll env onePort .crypto fuel

/-! ## The properties -/

/-- No count was above `QUEUE_DEPTH`, and nothing was added after a full queue made no progress. -/
def Within : Prop := s.peak ≤ QUEUE_DEPTH ∧ s.overrun = false

def Erred (e : Option DocaError) (s : Insertion) : Prop := s.Within ∧ (s.stalled = true → e ≠ none)

def Kept (x : QueueProg) : Prop := x.wp (fun _ s => s.Within ∧ s.stalled = false) Erred .start

def Flushed (x : QueueProg) : Prop :=
  x.wp (fun _ s => s.unflushed = false) (fun _ s => s.unflushed = false) .start

/-! ## Rules for the calls -/

section Rules

variable {env onePort} {o o' : StatusObject} {s s' : Insertion} {flags flags' : FlowFlags}
variable {e : Option DocaError} {n c c' k : Nat}
variable {Q : Unit → Insertion → Prop} {Z : Option DocaError → Insertion → Prop}

def added (s : Insertion) (o : StatusObject) (flags : FlowFlags) (n c : Nat) : Insertion :=
  (({ s with calls := c } : Insertion).withEntry o flags).withCount o n

@[simp] theorem count_added :
    (s.added o flags n c).count o' = if o' = o then s.count o + n else s.count o' := by
  unfold count added withCount
  by_cases h : o' = o
  · subst h
    simp [count, withEntry]
  · simp [h, withEntry]

theorem withEntry_twice : ({ ({ s with calls := c } : Insertion).withEntry o flags with
    calls := c' } : Insertion).withEntry o flags' =
      ({ s with calls := c' } : Insertion).withEntry o flags' := by
  simp [withEntry]

theorem added_twice : (({ s.added o flags 1 c with calls := c' } : Insertion).withEntry o
    flags').withCount o 4 = s.added o flags' 5 c' := by
  have hmax : max (max s.peak (s.count o + 1)) (s.count o + 1 + 4) =
      max s.peak (s.count o + 5) := by omega
  unfold count at hmax
  simp [added, withCount, withEntry, count, hmax]

structure Refused (env : QueueEnv) (k : Nat) (s : Insertion) (e : Option DocaError)
    (s' : Insertion) : Prop where
  code : ∃ n, env.code n ≠ .success ∧ e = some (env.code n)
  unflushed : s'.unflushed = s.unflushed
  stalled : s'.stalled = s.stalled
  overrun : s.stalled = false → s'.overrun = s.overrun
  peak : s'.peak ≤ max s.peak k

theorem Refused.added (h : Refused env k (s.added o flags n c) e s') (hk : s.count o + n ≤ k) :
    Refused env k s e s' := by
  refine ⟨h.code, h.unflushed, h.stalled, fun hs => ?_, ?_⟩
  · rw [h.overrun hs]
    simp [Insertion.added, withCount, withEntry, hs]
  · have hpeak : s'.peak ≤ max (max s.peak (s.count o + n)) k := h.peak
    omega

@[simp] theorem wp_request : (request env).wp Q Z s ↔
    (env.code s.calls = .success → Q () { s with calls := s.calls + 1 }) ∧
    (env.code s.calls ≠ .success → Z (some (env.code s.calls)) { s with calls := s.calls + 1 }) := by
  unfold request wp
  by_cases h : env.code s.calls = .success <;> simp [h]

theorem wp_addEntry (hZ : ∀ e s', Refused env k s e s' → Z e s')
    (hQ : ∀ c, Q () (({ s with calls := c } : Insertion).withEntry o flags)) :
    (addEntry env o flags).wp Q Z s := by
  simp only [addEntry, wp_bind, wp_request, wp_modify]
  exact ⟨fun _ => hQ _, fun h => hZ _ _ ⟨⟨_, h, rfl⟩, rfl, rfl, fun _ => rfl, Nat.le_max_left ..⟩⟩

theorem wp_addBadSyndromePipeEntry (hZ : ∀ e s', Refused env k s e s' → Z e s')
    (hQ : ∀ c, Q () (({ s with calls := c } : Insertion).withEntry .crypto flags)) :
    (addBadSyndromePipeEntry env flags).wp Q Z s := by
  have herr : ∀ {f c} e s', Refused env k (({ s with calls := c } : Insertion).withEntry .crypto f) e
      s' → Z e s' := fun e s' h => hZ e s' ⟨h.code, h.unflushed, h.stalled, fun hs => by
        rw [h.overrun hs]; simp [withEntry, hs], h.peak⟩
  simp only [addBadSyndromePipeEntry, wp_bind]
  refine wp_addEntry hZ fun c₁ => wp_addEntry herr fun c₂ => ?_
  rw [withEntry_twice]
  refine wp_addEntry herr fun c₃ => ?_
  rw [withEntry_twice]
  refine wp_addEntry herr fun c₄ => ?_
  rw [withEntry_twice]
  exact hQ c₄

theorem wp_enqueue (hZ : ∀ e s', Refused env (s.count .crypto + 1) s e s' → Z e s')
    (hQ : ∀ c, (if s.count o + 1 = QUEUE_DEPTH then processEntries env onePort o else pure ()).wp
      Q Z (s.added o flags 1 c)) : (enqueue env onePort o flags).wp Q Z s := by
  unfold enqueue
  rw [wp_bind]
  refine wp_addEntry hZ fun c => ?_
  have hcount : (s.added o flags 1 c).count o = s.count o + 1 := by simp
  have h := hQ c
  rw [← hcount] at h
  exact h

def step (debug : Bool) : Nat := if debug then 5 else 1

/-- The last entry of the rule is flushed if the rule is the last one, and at one count. -/
def flushes (s : Insertion) (nbRules i : Nat) : Bool :=
  i + 1 = nbRules ∨ s.count .crypto = QUEUE_DEPTH - 8

theorem wp_addDecryptPass {debug : Bool} {nbRules i : Nat}
    (hZ : ∀ e s', Refused env (s.count .crypto + 1) s e s' → Z e s')
    (hQ : ∀ c, (if QUEUE_DEPTH - 8 ≤ s.count .crypto + step debug then
      processEntries env onePort .crypto else pure ()).wp Q Z
        (s.added .crypto (flagsIf (s.flushes nbRules i)) (step debug) c)) :
    (addDecryptPass env onePort debug nbRules i).wp Q Z s := by
  unfold addDecryptPass
  rw [wp_bind, wp_gets, wp_bind, wp_request]
  refine ⟨fun _ => ?_, fun h => hZ _ _ ⟨⟨_, h, rfl⟩, rfl, rfl, fun _ => rfl, Nat.le_max_left ..⟩⟩
  rw [wp_bind]
  refine wp_addEntry (fun e s' h => hZ e s' ⟨h.code, h.unflushed, h.stalled, h.overrun, h.peak⟩)
    fun c => ?_
  rw [wp_bind, wp_modify]
  cases debug with
  | false =>
    have hcount : (s.added .crypto (flagsIf (s.flushes nbRules i)) 1 c).count .crypto =
        s.count .crypto + 1 := by simp
    have h := hQ c
    rw [step, if_neg Bool.false_ne_true, ← hcount] at h
    exact h
  | true =>
    rw [if_pos rfl, wp_bind]
    refine wp_addBadSyndromePipeEntry (s := s.added .crypto .waitForBatch 1 c) (fun e s' h =>
      hZ e s' (h.added (Nat.le_refl _))) fun c' => ?_
    have hcount : (s.added .crypto (flagsIf (s.flushes nbRules i)) 5 c').count .crypto =
        s.count .crypto + 5 := by simp
    have h := hQ c'
    rw [step, if_pos rfl, ← hcount] at h
    rw [wp_bind, wp_modify, added_twice]
    exact h

theorem count_processed_le : (s.processed env onePort o).count o' ≤ s.count o' := by
  show (completed env onePort s o o').entriesInQueue ≤ _
  unfold completed
  split
  · exact sub_le _ _
  · exact Nat.le_refl _

theorem wp_processEntries (hok : (s.processed env onePort o).count o ≠ QUEUE_DEPTH →
      Q () { s.processed env onePort o with calls := s.calls + 1 })
    (herr : ∀ e, Z (some e) { s.processed env onePort o with calls := s.calls + 1 }) :
    (processEntries env onePort o).wp Q Z s := by
  simp only [processEntries, wp_bind, wp_modify, wp_request, wp_gets, wp_ite, wp_fail, wp_pure]
  exact ⟨fun _ => ⟨fun _ => herr _, fun h => hok fun hq => h (.inr hq)⟩, fun _ => herr _⟩

theorem wp_processEntries_quiet (hcode : ∀ n, env.code n = .success)
    (hok : ((s.processed env onePort o).status o).failure = false)
    (hne : (s.processed env onePort o).count o ≠ QUEUE_DEPTH)
    (hQ : Q () { s.processed env onePort o with calls := s.calls + 1 }) :
    (processEntries env onePort o).wp Q Z s := by
  simp only [processEntries, wp_bind, wp_modify, wp_request, wp_gets, wp_ite, wp_fail, wp_pure]
  refine ⟨fun _ => ⟨fun h => ?_, fun _ => hQ⟩, fun h => absurd (hcode _) h⟩
  rcases h with h | h
  · rw [hok] at h
    cases h
  · exact absurd h hne

theorem wp_addEncryptPass_split {nbRules ruleId : Nat} :
    (addEncryptPass env onePort true nbRules ruleId).wp Q Z s ↔ (do
        request env
        addSrcIp6Entry env onePort
        addEncryptPass env onePort false nbRules ruleId : QueueProg).wp Q Z s := by
  simp only [addEncryptPass, addFiveTupleMatchEntry, wp_bind, if_true]
  exact Iff.rfl

end Rules

/-! ## The queue is not over-filled -/

section Kept

variable {env onePort} {o : StatusObject} {s : Insertion} {flags : FlowFlags}

structure Calm (s : Insertion) : Prop where
  room : ∀ o, s.count o < QUEUE_DEPTH
  within : s.Within
  moves : s.stalled = false

theorem Calm.erred (h : s.Calm) (e : Option DocaError) : Erred e s :=
  ⟨h.within, fun hst => by rw [h.moves] at hst; cases hst⟩

theorem Calm.refused (h : s.Calm) {e : Option DocaError} {s' : Insertion}
    (h' : Refused env (s.count .crypto + 1) s e s') : Erred e s' := by
  refine ⟨⟨Nat.le_trans h'.peak (Nat.max_le.mpr ⟨h.within.1, h.room .crypto⟩), ?_⟩, fun hst => ?_⟩
  · rw [h'.overrun h.moves, h.within.2]
  · rw [h'.stalled, h.moves] at hst
    cases hst

theorem request_calm (h : s.Calm) : (request env).wp (fun _ => Calm) Erred s :=
  have h' : ∀ c, Calm { s with calls := c } := fun _ => ⟨h.room, h.within, h.moves⟩
  wp_request.mpr ⟨fun _ => h' _, fun _ => (h' _).erred _⟩

theorem processEntries_calm (hle : s.count o ≤ QUEUE_DEPTH)
    (hother : ∀ o', o' ≠ o → s.count o' < QUEUE_DEPTH) (hw : s.Within) (hst : s.stalled = false) :
    (processEntries env onePort o).wp (fun _ s' => s'.Calm ∧ ∀ o', s'.count o' ≤ s.count o') Erred s := by
  refine wp_processEntries (fun hne => ⟨⟨fun o' => ?_, hw, ?_⟩, fun o' => count_processed_le⟩)
    fun e => ⟨hw, nofun⟩
  · have hdone : (s.processed env onePort o).count o' ≤ s.count o' := count_processed_le
    by_cases ho : o' = o
    · subst ho
      exact Nat.lt_of_le_of_ne (Nat.le_trans hdone hle) hne
    · exact Nat.lt_of_le_of_lt hdone (hother o' ho)
  · have hne' : (completed env onePort s o o).entriesInQueue ≠ QUEUE_DEPTH := hne
    simp [processed, hst, hne']

theorem processIf_calm {p : Prop} [Decidable p] {n c : Nat} (h : s.Calm)
    (hle : s.count o + n ≤ QUEUE_DEPTH) (hp : ¬ p → s.count o + n < QUEUE_DEPTH) :
    (if p then processEntries env onePort o else pure ()).wp
      (fun _ s' => s'.Calm ∧ s'.count o ≤ s.count o + n) Erred (s.added o flags n c) := by
  have hw : (s.added o flags n c).Within :=
    ⟨Nat.max_le.mpr ⟨h.within.1, hle⟩, by simp [added, withCount, withEntry, h.within.2, h.moves]⟩
  have hself : (s.added o flags n c).count o = s.count o + n := by simp
  have hother : ∀ o', o' ≠ o → (s.added o flags n c).count o' < QUEUE_DEPTH := fun o' ho => by
    simpa [ho] using h.room o'
  rw [wp_ite, wp_pure]
  refine ⟨fun _ => ?_, fun hno => ⟨⟨fun o' => ?_, hw, h.moves⟩, Nat.le_of_eq hself⟩⟩
  · refine wp_mono (processEntries_calm (by omega) hother hw h.moves) (fun _ s' h' => ?_) fun _ _ h => h
    exact ⟨h'.1, hself ▸ h'.2 o⟩
  · by_cases ho : o' = o
    · subst ho
      rw [hself]
      exact hp hno
    · exact hother o' ho

theorem enqueue_calm (h : s.Calm) : (enqueue env onePort o flags).wp (fun _ => Calm) Erred s := by
  have hroom := h.room o
  exact wp_enqueue (fun _ _ => h.refused) fun c => wp_mono (processIf_calm h hroom fun hne => by omega)
    (fun _ _ h => h.1) fun _ _ h => h

theorem processAll_calm (fuel : Nat) (h : s.Calm) :
    (processAll env onePort o fuel).wp (fun _ => Calm) Erred s := by
  induction fuel generalizing s with
  | zero => exact h.erred none
  | succ fuel ih =>
    refine wp_seq (processEntries_calm (Nat.le_of_lt (h.room o)) (fun o' _ => h.room o') h.within
      h.moves) fun _ s' h' => ?_
    simp only [wp_bind, wp_gets, wp_ite, wp_pure]
    exact ⟨fun _ => ih h'.1, fun _ => h'.1⟩

theorem start_calm : start.Calm := ⟨fun _ => zero_lt_succ 511, ⟨zero_le _, rfl⟩, rfl⟩

theorem addEncryptEntries_kept (split : Nat → Bool) (nbRules ruleOffset fuel : Nat) :
    Kept (addEncryptEntries env onePort split nbRules ruleOffset fuel) := by
  have hrule : ∀ {i} {s : Insertion}, s.Calm →
      (addEncryptPass env onePort false nbRules i).wp (fun _ => Calm) Erred s := fun h =>
    wp_seq (enqueue_calm h) fun _ s₁ h₁ => wp_seq (request_calm h₁) fun _ s₂ h₂ => enqueue_calm h₂
  have hpass : ∀ b i, ∀ s : Insertion, s.Calm →
      (addEncryptPass env onePort b nbRules i).wp (fun _ => Calm) Erred s := by
    intro b i s h
    cases b with
    | false => exact hrule h
    | true =>
      rw [wp_addEncryptPass_split]
      refine wp_seq (request_calm h) fun _ s₁ h₁ => ?_
      exact wp_seq (enqueue_calm h₁) fun _ s₂ h₂ => hrule h₂
  refine wp_seq (wp_times (fun _ => Calm) (fun i _ => hpass _ _) start_calm) fun _ s₁ h₁ => ?_
  refine wp_seq (processAll_calm fuel h₁) fun _ s₂ h₂ => ?_
  exact wp_mono (processAll_calm fuel h₂) (fun _ _ h => ⟨h.within, h.moves⟩) fun _ _ h => h

theorem addDecryptEntries_kept {debug : Bool} {nbRules : Nat} (fuel : Nat)
    (hnb : debug = true → nbRules ≤ 102) :
    Kept (addDecryptEntries env onePort debug nbRules fuel) := by
  refine wp_seq (wp_times (fun i s => s.Calm ∧ (debug = true → s.count .crypto ≤ 5 * i)) ?_
    ⟨start_calm, fun _ => zero_le _⟩) fun _ s₁ h₁ => ?_
  · intro i hi s ⟨h, hcount⟩
    have hroom := h.room .crypto
    have hle : s.count .crypto + step debug ≤ QUEUE_DEPTH ∧ (debug = true → step debug = 5) := by
      cases debug <;> simp [step, QUEUE_DEPTH] at * <;> omega
    refine wp_addDecryptPass (fun _ _ => h.refused) fun c => ?_
    refine wp_mono (processIf_calm h hle.1 fun hno => ?_) (fun _ s' h' => ⟨h'.1, fun hd => ?_⟩)
      fun _ _ h => h
    · rw [QUEUE_DEPTH] at *
      omega
    · have hfive := hle.2 hd
      have hc := hcount hd
      omega
  · exact wp_mono (processAll_calm fuel h₁.1) (fun _ _ h => ⟨h.within, h.moves⟩) fun _ _ h => h

end Kept

/-! ## A device that completes nothing -/

section Stuck

variable {onePort} {debug : Bool} {nbRules i : Nat} {s : Insertion}

def stuck : QueueEnv := ⟨fun _ => .success, fun _ _ _ => 0, fun _ _ _ => false⟩

theorem addDecryptPass_stuck (hok : (s.status .crypto).failure = false)
    (hne : s.count .crypto + step debug ≠ QUEUE_DEPTH) :
    (addDecryptPass stuck onePort debug nbRules i).wp (fun _ s' => (s'.status .crypto).failure = false ∧
        s'.count .crypto = s.count .crypto + step debug ∧ s'.count .crypto ≤ s'.peak ∧
        (s'.unflushed = true ↔ s.unflushed = true ∨
          QUEUE_DEPTH - 8 ≤ s'.count .crypto ∧ s.flushes nbRules i = false))
      (fun _ _ => False) s := by
  refine wp_addDecryptPass (fun e s' h => ?_) fun c => ?_
  · obtain ⟨_, hcode, _⟩ := h.code
    exact hcode rfl
  generalize hs' : s.added .crypto (flagsIf (s.flushes nbRules i)) (step debug) c = s'
  have hcount : s'.count .crypto = s.count .crypto + step debug := by simp [← hs']
  have hfail : (s'.status .crypto).failure = false := by
    simp [← hs', added, withCount, withEntry, hok]
  have hpeak : s'.count .crypto ≤ s'.peak := by
    rw [hcount, ← hs']
    exact Nat.le_max_right _ _
  have hflag : s'.unflushed = s.unflushed := by rw [← hs']; rfl
  rw [← hcount] at hne ⊢
  by_cases hfull : QUEUE_DEPTH - 8 ≤ s'.count .crypto
  · have hpos : 0 < s'.count .crypto := Nat.lt_of_lt_of_le (Nat.zero_lt_succ 503) hfull
    have hlast : s'.last .crypto = .waitForBatch ↔ s.flushes nbRules i = false := by
      rw [← hs']
      cases s.flushes nbRules i <;> simp [flagsIf, added, withCount, withEntry]
    have hsame : (s'.processed stuck onePort .crypto).status = s'.status := by
      funext o
      simp [processed, completed, stuck, count]
    have hqueue : (s'.processed stuck onePort .crypto).count = s'.count :=
      congrArg (fun f o => EntriesStatus.entriesInQueue (f o)) hsame
    rw [if_pos hfull]
    refine wp_processEntries_quiet (fun _ => rfl) ?_ ?_ ⟨?_, congrFun hqueue _, ?_, ?_⟩
    · rw [hsame, hfail]
    · rw [hqueue]
      exact hne
    · rw [hsame, hfail]
    · exact hqueue ▸ hpeak
    · show _ ↔ _ ∨ _ ≤ (s'.processed stuck onePort .crypto).count .crypto ∧ _
      rw [hqueue]
      simp [processed, hflag, hpos, hlast, Nat.sub_le_iff_le_add.mp hfull]
  · rw [if_neg hfull]
    exact ⟨hfail, rfl, hpeak, by simp [hflag, hfull]⟩

theorem addDecryptEntries_overfull (h : 102 < nbRules) :
    ¬ Kept (addDecryptEntries stuck onePort true nbRules 0) := by
  intro hkept
  have hrun : (addDecryptEntries stuck onePort true nbRules 0).wp (fun _ _ => False)
      (fun _ s => QUEUE_DEPTH < s.peak) start := by
    refine wp_seq (wp_times (fun i s => (s.status .crypto).failure = false ∧
      s.count .crypto = 5 * i ∧ 5 * i ≤ s.peak) ?_ ⟨rfl, rfl, zero_le _⟩) fun _ s₁ h₁ => ?_
    · intro i _ s ⟨hok, hcount, _⟩
      refine wp_mono (addDecryptPass_stuck hok ?_) (fun _ s' h' => ?_) fun _ _ h => h.elim
      · rw [hcount, QUEUE_DEPTH, step, if_pos rfl]
        omega
      · have hfive : s'.count .crypto = 5 * (i + 1) := by
          rw [h'.2.1, hcount, step, if_pos rfl]
          omega
        exact ⟨h'.1, hfive, hfive ▸ h'.2.2.1⟩
    · show QUEUE_DEPTH < s₁.peak
      rw [QUEUE_DEPTH]
      omega
  exact wp_exclusive hkept hrun (fun _ _ _ h => h) fun _ _ h h' => absurd h.1.1 (by omega)

end Stuck

/-- **The queue is kept within its depth exactly outside debug mode or with at most 102 decrypt
rules**: with every rule five entries are added there, and 510 is not noticed by the equality test. -/
theorem queueKept_iff (onePort debug : Bool) (split : Nat → Bool)
    (nbEncrypt encryptOffset nbDecrypt : Nat) :
    (∀ env fuel, Kept (addEncryptEntries env onePort split nbEncrypt encryptOffset fuel) ∧
      Kept (addDecryptEntries env onePort debug nbDecrypt fuel)) ↔
    (debug = true → nbDecrypt ≤ 102) := by
  refine ⟨fun h hdebug => ?_, fun h env fuel =>
    ⟨addEncryptEntries_kept split nbEncrypt encryptOffset fuel, addDecryptEntries_kept fuel h⟩⟩
  subst hdebug
  by_contra hlt
  exact addDecryptEntries_overfull (Nat.lt_of_not_le hlt) (h stuck 0).2

theorem debug103_overfull :
    (addDecryptEntries stuck false true 103 0 .start).map (fun r => (r.2.peak, r.2.overrun)) =
      some (515, false) := by
  decide +kernel

/-! ## Batches are flushed -/

section Flushed

variable {env onePort} {debug : Bool} {nbRules i : Nat} {o : StatusObject} {s : Insertion}
variable {flags : FlowFlags}

theorem processEntries_flushed (h : s.unflushed = false) (hlast : 0 < s.count o → s.last o = .noWait) :
    (processEntries env onePort o).wp
      (fun _ s' => s'.unflushed = false ∧ s'.last = s.last ∧ ∀ o', s'.count o' ≤ s.count o')
      (fun _ s' => s'.unflushed = false) s := by
  have hflushed : (s.processed env onePort o).unflushed = false := by
    by_cases hpos : 0 < s.count o
    · simp [processed, h, hlast hpos]
    · simp [processed, h, hpos]
  exact wp_processEntries (fun _ => ⟨hflushed, rfl, fun _ => count_processed_le⟩) fun _ => hflushed

theorem processAll_flushed (fuel : Nat) (h : s.unflushed = false)
    (hlast : 0 < s.count o → s.last o = .noWait) :
    (processAll env onePort o fuel).wp
      (fun _ s' => s'.unflushed = false ∧ s'.last = s.last ∧ ∀ o', s'.count o' ≤ s.count o')
      (fun _ s' => s'.unflushed = false) s := by
  induction fuel generalizing s with
  | zero => exact h
  | succ fuel ih =>
    refine wp_seq (processEntries_flushed h hlast) fun _ s₁ ⟨h₁, hlast₁, hle⟩ => ?_
    simp only [wp_bind, wp_gets, wp_ite, wp_pure]
    refine ⟨fun hpos => ?_, fun _ => ⟨h₁, hlast₁, hle⟩⟩
    refine wp_mono (ih h₁ fun _ => ?_) (fun _ s' h' => ?_) fun _ _ h => h
    · rw [hlast₁]
      exact hlast (Nat.lt_of_lt_of_le hpos (hle o))
    · exact ⟨h'.1, h'.2.1.trans hlast₁, fun o' => Nat.le_trans (h'.2.2 o') (hle o')⟩

theorem addDecryptEntries_flushed (fuel : Nat) (hnb : nbRules ≤ if debug then 101 else 504) :
    Flushed (addDecryptEntries env onePort debug nbRules fuel) := by
  refine wp_seq (wp_times (fun i s => s.unflushed = false ∧ s.count .crypto ≤ step debug * i ∧
    (i = nbRules → 0 < s.count .crypto → s.last .crypto = .noWait)) ?_
    ⟨rfl, Nat.le_refl _, fun _ _ => rfl⟩) fun _ s₁ h₁ => ?_
  · intro i hi s ⟨h, hcount, _⟩
    have hlastRule : QUEUE_DEPTH - 8 ≤ step debug * (i + 1) → i + 1 = nbRules := by
      cases debug <;> simp [step, QUEUE_DEPTH] at * <;> omega
    refine wp_addDecryptPass (fun _ _ h' => h'.unflushed.trans h) fun c => ?_
    generalize hs' : s.added .crypto (flagsIf (s.flushes nbRules i)) (step debug) c = s'
    have hflag : s'.unflushed = false := by rw [← hs']; exact h
    have hle : s'.count .crypto ≤ step debug * (i + 1) := by
      rw [← hs', count_added, if_pos rfl, mul_succ]
      omega
    have hlast : i + 1 = nbRules → s'.last .crypto = .noWait := fun hi => by
      simp [← hs', added, withCount, withEntry, flagsIf, flushes, hi]
    rw [wp_ite, wp_pure]
    refine ⟨fun hfull => ?_, fun _ => ⟨hflag, hle, fun hi _ => hlast hi⟩⟩
    have hlast' := hlast (hlastRule (by rw [mul_succ]; omega))
    refine wp_mono (processEntries_flushed hflag fun _ => hlast')
      (fun _ s'' h'' => ⟨h''.1, Nat.le_trans (h''.2.2 _) hle, fun _ _ => ?_⟩) fun _ _ h => h
    rw [h''.2.1, hlast']
  · exact wp_mono (processAll_flushed fuel h₁.1 (h₁.2.2 rfl)) (fun _ _ h => h.1) fun _ _ h => h

theorem processEntries_unflushed (h : s.unflushed = true ∨ 0 < s.count o ∧ s.last o = .waitForBatch) :
    (processEntries env onePort o).wp (fun _ s' => s'.unflushed = true)
      (fun _ s' => s'.unflushed = true) s := by
  have hrec : (s.processed env onePort o).unflushed = true := by
    simpa [processed] using h
  exact wp_processEntries (fun _ => hrec) fun _ => hrec

theorem processAll_unflushed (fuel : Nat) (h : s.unflushed = true) :
    (processAll env onePort o fuel).wp (fun _ s' => s'.unflushed = true)
      (fun _ s' => s'.unflushed = true) s := by
  induction fuel generalizing s with
  | zero => exact h
  | succ fuel ih =>
    refine wp_seq (processEntries_unflushed (.inl h)) fun _ s₁ h₁ => ?_
    simp only [wp_bind, wp_gets, wp_ite, wp_pure]
    exact ⟨fun _ => ih h₁, fun _ => h₁⟩

theorem not_flushed {x : QueueProg} (h : x.wp (fun _ s => s.unflushed = true)
    (fun _ s => s.unflushed = true) start) : ¬ Flushed x := fun hflushed =>
  wp_exclusive hflushed h (fun _ _ h h' => by simp [h] at h') fun _ _ h h' => by simp [h] at h'

theorem addDecryptEntries_unflushed (hnb : (if debug then 101 else 504) < nbRules) :
    ¬ Flushed (addDecryptEntries stuck onePort debug nbRules 0) := by
  refine not_flushed (wp_seq (wp_times (fun i s => s.unflushed = true ∨
    (s.status .crypto).failure = false ∧ s.count .crypto = step debug * i ∧
      step debug * i < QUEUE_DEPTH - 8) ?_ (.inr ⟨rfl, rfl, zero_lt_succ 503⟩))
    fun _ s₁ h₁ => ?_)
  · intro i hi s h
    by_cases hu : s.unflushed = true
    · refine wp_addDecryptPass (fun _ _ h' => h'.unflushed.trans hu) fun c => ?_
      rw [wp_ite, wp_pure]
      exact ⟨fun _ => wp_mono (processEntries_unflushed (.inl hu)) (fun _ _ h => .inl h)
        fun _ _ h => h, fun _ => .inl hu⟩
    · obtain ⟨hok, hcount, hlt⟩ := h.resolve_left hu
      -- The queue was not filled yet, so the rule is not the last one.
      have hearly : i + 1 ≠ nbRules ∧ s.count .crypto + step debug < QUEUE_DEPTH := by
        cases debug <;> simp [step, QUEUE_DEPTH] at * <;> omega
      refine wp_mono (addDecryptPass_stuck hok (Nat.ne_of_lt hearly.2)) (fun _ s' h' => ?_)
        fun _ _ h => h.elim
      have hnext : s'.count .crypto = step debug * (i + 1) := by rw [h'.2.1, hcount, mul_succ]
      by_cases hfull : QUEUE_DEPTH - 8 ≤ s'.count .crypto
      · refine .inl (h'.2.2.2.mpr (.inr ⟨hfull, ?_⟩))
        simp [flushes, hearly.1, hcount, Nat.ne_of_lt hlt]
      · exact .inr ⟨h'.1, hnext, hnext ▸ Nat.lt_of_not_le hfull⟩
  · refine h₁.resolve_right fun h => ?_
    cases debug <;> simp [step, QUEUE_DEPTH] at * <;> omega

theorem enqueue_flushed (h : s.unflushed = false)
    (hflags : s.count o + 1 = QUEUE_DEPTH → flags = .noWait) :
    (enqueue env onePort o flags).wp
      (fun _ s' => s'.unflushed = false ∧ s'.last = Function.update s.last o flags)
      (fun _ s' => s'.unflushed = false) s := by
  refine wp_enqueue (fun _ _ h' => h'.unflushed.trans h) fun c => ?_
  rw [wp_ite, wp_pure]
  refine ⟨fun hfull => ?_, fun _ => ⟨h, rfl⟩⟩
  refine wp_mono (processEntries_flushed h fun _ => ?_) (fun _ s' h' => ⟨h'.1, h'.2.1⟩) fun _ _ h => h
  simp [added, withCount, withEntry, hflags hfull]

theorem addEncryptPass_flushed {ruleId : Nat} (h : s.unflushed = false) :
    (addEncryptPass env onePort false nbRules ruleId).wp
      (fun _ s' => s'.unflushed = false ∧ (ruleId + 1 = nbRules → ∀ o, s'.last o = .noWait))
      (fun _ s' => s'.unflushed = false) s := by
  have hfull : ∀ {n : Nat}, n + 1 = QUEUE_DEPTH →
      entryFlags (ruleId + 1 = nbRules) n = .noWait := fun hn => by
    simp [flagsIf, Nat.eq_sub_of_add_eq hn]
  refine wp_seq (enqueue_flushed h hfull) fun _ s₁ h₁ => ?_
  rw [wp_bind, wp_request]
  refine ⟨fun _ => ?_, fun _ => h₁.1⟩
  refine wp_mono (enqueue_flushed h₁.1 hfull) (fun _ s₂ h₂ => ⟨h₂.1, fun hlast o => ?_⟩) fun _ _ h => h
  rw [h₂.2]
  cases o with
  | hairpin => simp [h₁.2, hlast, flagsIf]
  | crypto => simp [hlast, flagsIf]

theorem addEncryptEntries_flushed (split : Nat → Bool) (nbRules fuel : Nat) :
    Flushed (addEncryptEntries env onePort split nbRules 0 fuel) := by
  have hpass : ∀ b i (s : Insertion), s.unflushed = false → (addEncryptPass env onePort b nbRules i).wp
        (fun _ s' => s'.unflushed = false ∧ (i + 1 = nbRules → ∀ o, s'.last o = .noWait))
        (fun _ s' => s'.unflushed = false) s := by
    intro b i s h
    cases b with
    | false => exact addEncryptPass_flushed h
    | true =>
      rw [wp_addEncryptPass_split, wp_bind, wp_request]
      refine ⟨fun _ => ?_, fun _ => h⟩
      refine wp_seq (enqueue_flushed h fun hfull => ?_) fun _ s₁ h₁ => addEncryptPass_flushed h₁.1
      simp [flagsIf, Nat.eq_sub_of_add_eq hfull]
  refine wp_seq (wp_times (fun i s => s.unflushed = false ∧
    (i = nbRules → ∀ o, 0 < s.count o → s.last o = .noWait)) (fun i _ s h => ?_)
    ⟨rfl, fun _ _ _ => rfl⟩) fun _ s₁ ⟨h₁, hlast₁⟩ => ?_
  · rw [Nat.zero_add]
    exact wp_mono (hpass _ i s h.1) (fun _ s' h' => ⟨h'.1, fun hi o _ => h'.2 hi o⟩) fun _ _ h => h
  refine wp_seq (processAll_flushed fuel h₁ (hlast₁ rfl .crypto)) fun _ s₂ ⟨h₂, hlast₂, hle⟩ => ?_
  refine wp_mono (processAll_flushed fuel h₂ fun hpos => ?_) (fun _ _ h => h.1) fun _ _ h => h
  rw [hlast₂]
  exact hlast₁ rfl .hairpin (Nat.lt_of_lt_of_le hpos (hle _))

end Flushed

/-! ## A device on which only the queue of the hairpin pipes gets full -/

section Ahead

variable {nbRules : Nat} {s : Insertion} {flags : FlowFlags}
variable {Z : Option DocaError → Insertion → Prop}

/-- Every call is accepted, and completes two entries of the hairpin pipes and all others. -/
def trickle : QueueEnv :=
  ⟨fun _ => .success, fun s _ o => if o = .hairpin then 2 else s.count o, fun _ _ _ => false⟩

/-- There are at least as many entries for the hairpin pipes as others. -/
structure Ahead (s : Insertion) : Prop where
  le : s.count .crypto ≤ s.count .hairpin
  room : s.count .hairpin < QUEUE_DEPTH
  ok : (s.status .hairpin).failure = false

theorem enqueue_hairpin (h : s.Ahead) : (enqueue trickle true .hairpin flags).wp
    (fun _ s' => s'.Ahead ∧ s'.count .crypto < s'.count .hairpin) Z s := by
  refine wp_enqueue (fun e s' h => ?_) fun c => ?_
  · obtain ⟨_, hcode, _⟩ := h.code
    exact absurd rfl hcode
  generalize hs' : s.added .hairpin flags 1 c = s'
  have hh : s'.count .hairpin = s.count .hairpin + 1 := by simp [← hs']
  have hc : s'.count .crypto = s.count .crypto := by simp [← hs']
  have hok : (s'.status .hairpin).failure = false := by
    simp [← hs', added, withCount, withEntry, h.ok]
  obtain ⟨hle, hroom, -⟩ := h
  rw [wp_ite, wp_pure]
  refine ⟨fun hfull => ?_, fun hne => ⟨⟨by omega, by omega, hok⟩, by omega⟩⟩
  have hh' : (s'.processed trickle true .hairpin).count .hairpin =
      s'.count .hairpin - min 2 (s'.count .hairpin) := by
    simp [processed, completed, trickle, count]
  have hc' : (s'.processed trickle true .hairpin).count .crypto = 0 := by
    simp [processed, completed, trickle, count]
  have hok' : ((s'.processed trickle true .hairpin).status .hairpin).failure = false := by
    simp [processed, completed, trickle, hok]
  have hnext : (s'.processed trickle true .hairpin).count .hairpin = 510 := by
    rw [hh', hh, hfull, QUEUE_DEPTH]
    rfl
  refine wp_processEntries_quiet (fun _ => rfl) hok' (hnext ▸ by decide) ⟨⟨?_, ?_, hok'⟩, ?_⟩
  · exact hc' ▸ zero_le _
  · exact hnext ▸ by decide
  · exact hc' ▸ hnext ▸ by decide

theorem enqueue_crypto (h : s.Ahead) (hlt : s.count .crypto < s.count .hairpin) :
    (enqueue trickle true .crypto flags).wp
      (fun _ s' => s'.Ahead ∧ 0 < s'.count .crypto ∧ s'.last .crypto = flags) Z s := by
  have hroom := h.room
  refine wp_enqueue (fun e s' h => ?_) fun c => ?_
  · obtain ⟨_, hcode, _⟩ := h.code
    exact absurd rfl hcode
  rw [if_neg (by omega), wp_pure]
  refine ⟨⟨?_, ?_, h.ok⟩, ?_, ?_⟩
  · rw [count_added, count_added]
    exact hlt
  · rw [count_added]
    exact hroom
  · simp
  · simp [added, withCount, withEntry]

theorem addEncryptEntries_unflushed {ruleOffset : Nat} (hoff : ruleOffset ≠ 0) (hnb : nbRules ≠ 0) :
    ¬ Flushed (addEncryptEntries trickle true (fun _ => false) nbRules ruleOffset 1) := by
  refine not_flushed (wp_seq (wp_times (fun i s => s.Ahead ∧ (i = nbRules →
    0 < s.count .crypto ∧ s.last .crypto = .waitForBatch)) ?_
    ⟨⟨Nat.le_refl _, Nat.zero_lt_succ 511, rfl⟩, fun h => absurd h.symm hnb⟩) fun _ s₁ h₁ => ?_)
  · intro i _ s ⟨h, _⟩
    refine wp_seq (enqueue_hairpin h) fun _ s₁ ⟨h₁, hlt⟩ => ?_
    rw [wp_bind, wp_request]
    refine ⟨fun _ => ?_, fun hcode => absurd rfl hcode⟩
    refine wp_mono (enqueue_crypto ⟨h₁.le, h₁.room, h₁.ok⟩ hlt) (fun _ s' h' => ⟨h'.1, fun hi => ?_⟩)
      fun _ _ h => h
    refine ⟨h'.2.1, h'.2.2.trans ?_⟩
    have hroom := h₁.room
    have hlast : ruleOffset + i + 1 ≠ nbRules := by omega
    have hcount : s₁.count .crypto ≠ QUEUE_DEPTH - 1 := by omega
    exact congrArg flagsIf (decide_eq_false (not_or.mpr ⟨hlast, hcount⟩))
  · refine wp_seq (wp_seq (processEntries_unflushed (.inr (h₁.2 rfl))) fun _ s₂ h₂ => ?_)
      fun _ s₂ h₂ => processAll_unflushed 1 h₂
    simp only [wp_bind, wp_gets, wp_ite, wp_pure]
    exact ⟨fun _ => h₂, fun _ => h₂⟩

end Ahead

/-- **A batch is flushed before it is waited for exactly in the following slices.**  The encrypt rules
have to start at index 0, and the decrypt rules must not fill the queue before the last one. -/
theorem queueFlushed_iff (debug : Bool) (nbEncrypt encryptOffset nbDecrypt : Nat) :
    (∀ env onePort split fuel, Flushed (addEncryptEntries env onePort split nbEncrypt encryptOffset fuel) ∧
        Flushed (addDecryptEntries env onePort debug nbDecrypt fuel)) ↔
    (encryptOffset = 0 ∨ nbEncrypt = 0) ∧ nbDecrypt ≤ if debug then 101 else 504 := by
  refine ⟨fun h => ⟨?_, ?_⟩, fun ⟨henc, hdec⟩ env onePort split fuel =>
    ⟨?_, addDecryptEntries_flushed fuel hdec⟩⟩
  · by_contra hno
    obtain ⟨hoff, hnb⟩ := not_or.mp hno
    exact addEncryptEntries_unflushed hoff hnb (h trickle true (fun _ => false) 1).1
  · by_contra hno
    exact addDecryptEntries_unflushed (Nat.lt_of_not_le hno) (h stuck false (fun _ => false) 0).2
  · rcases henc with rfl | rfl
    · exact addEncryptEntries_flushed split nbEncrypt fuel
    · exact addEncryptEntries_flushed split 0 fuel

/-- The second of two encrypt rules, in a slice of its own: its entries wait for a batch. -/
theorem secondRule_unflushed : (addEncryptEntries trickle false (fun _ => false) 1 1 1 .start).map
      (fun r => (r.1.isOk, r.2.unflushed)) = some (true, true) := by
  decide +kernel

end Insertion

end Doca.IpsecGw
