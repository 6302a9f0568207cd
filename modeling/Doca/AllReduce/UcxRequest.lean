import Doca.Common.Error
import Doca.Lib.Interleaving

/-!
# All-reduce: UCX requests

Model of `request_init`, `request_release`, `user_request_complete`, `request_process`,
`common_request_callback` and the macro `INVOKE_CALLBACK` (`allreduce_ucx.c`), for any number of
operations over request objects that UCX recycles.

* `UcxRequest` — `struct allreduce_ucx_request`; `World` — the memory of the request objects,
  `callback_errno`, and for every operation where it stands and what was done for it.
* `UcxEvent` — `ucp_am_send_nbx` or `ucp_am_recv_data_nbx` returns, `request_process` runs, UCX
  reports the completion (before or after that), a user callback returns, and the user releases a
  request that has no callback.  While a user callback runs, all other operations may go on.
* `ucxStep` — an event; `none` where an assertion of the source fails.

Principal results: `UcxInv.step`, `ucx_completes_once`.
-/

namespace Doca.AllReduce

open Doca.Lib Function

/-! ## Request objects -/

inductive UcxOp where
  | unknown
  | amSend
  | amRecvData
  deriving DecidableEq

structure UcxRequest (C A : Type) where
  callback : Option C
  arg : Option A
  connection : Option Nat
  logErr : Bool
  status : UcsStatus
  op : UcxOp

def UcxRequest.init {C A : Type} : UcxRequest C A := ⟨none, none, none, true, .inProgress, .unknown⟩

/-- `ucs_status_ptr_t`: `NULL`, an error, or the address of a request object. -/
inductive StatusPtr where
  | null
  | error (code : Nat)
  | request (r : Nat)
  deriving DecidableEq

/-- An operation as started: its kind, the connection, the `user_data` for the completion callback, and
    the user's callback, argument and flags. -/
structure UcxCall (C A : Type) where
  op : UcxOp
  connection : Nat
  userData : Nat
  callback : Option C
  arg : Option A
  logErr : Bool
  wantsRequest : Bool

/-- Where an operation stands. `returned`: UCX has returned, `request_process` has not run. `userCallback
    r code`: the user callback runs, called by `request_process` (which will return `code`) or by
    `common_request_callback`; then `r` is released. `waiting`: the object was left to
    `common_request_callback` or to the user. -/
inductive Phase where
  | idle
  | returned (ptr : StatusPtr)
  | userCallback (r : Option Nat) (code : Option DocaError)
  | waiting (r : Nat)
  | finished (r : Option Nat)
  deriving DecidableEq

/-- All operations. `busy`: the objects UCX has given away; `outcome`: the status that UCX has reported;
    `object`: the object of an operation; `invoked`, `released`: its user callbacks and releases;
    `results`: what user callbacks returned, in order. -/
structure World (C A : Type) where
  objs : Nat → UcxRequest C A
  busy : List Nat
  errno : DocaError
  results : List DocaError
  phase : Nat → Phase
  outcome : Nat → Option UcsStatus
  object : Nat → Option Nat
  invoked : Nat → List (C × Option A × UcsStatus)
  released : Nat → List Nat
  requestP : Nat → Option Nat
  code : Nat → Option DocaError

variable {C A : Type}

def World.init : World C A where
  objs := fun _ => .init
  busy := []
  errno := .success
  results := []
  phase := fun _ => .idle
  outcome := fun _ => none
  object := fun _ => none
  invoked := fun _ => []
  released := fun _ => []
  requestP := fun _ => none
  code := fun _ => none

/-! ## The functions of the source -/

namespace World

variable (w : World C A)

def requestRelease (k r : Nat) : World C A :=
  { w with
    objs := update w.objs r .init
    busy := w.busy.erase r
    released := update w.released k (w.released k ++ [r]) }

def invoke (k : Nat) (cb : C) (arg : Option A) (status : UcsStatus) : World C A :=
  { w with invoked := update w.invoked k (w.invoked k ++ [(cb, arg, status)]) }

def noteResult (result : DocaError) : World C A :=
  { w with
    errno := if w.errno = .success then result else w.errno
    results := w.results ++ [result] }

variable (call : UcxCall C A)

def finishProcess (k : Nat) (r : Option Nat)
    (code : DocaError) : World C A :=
  let w := if call.wantsRequest then { w with requestP := update w.requestP k none } else w
  let w := match r with
    | some r => w.requestRelease k r
    | none => w
  { w with
    phase := update w.phase k (.finished r)
    code := update w.code k (some code) }

/-- `user_request_complete` up to the call of the user callback, and what follows it if there is
    none. -/
def userRequestComplete (k : Nat) (status : UcsStatus)
    (r : Option Nat) (code : DocaError) : World C A :=
  match call.callback with
  | some cb =>
    { w.invoke k cb call.arg status with
      phase := update w.phase k (.userCallback r (some code)) }
  | none => w.finishProcess call k r code

def requestProcess (k : Nat) : StatusPtr → Option (World C A)
  | .null => some (w.userRequestComplete call k .ok none .success)
  | .error code => some (w.userRequestComplete call k (.error code) none .unexpected)
  | .request r =>
    let o := w.objs r
    if o.status ≠ .inProgress then
      if o.op = call.op then
        some (w.userRequestComplete call k o.status (some r)
          (if o.status = .ok then .success else .unexpected))
      else none
    else if o.op = .unknown then
      some { w with
        objs := update w.objs r { o with
          callback := call.callback
          connection := some call.connection
          arg := call.arg
          op := call.op
          logErr := call.logErr }
        requestP := if call.wantsRequest then update w.requestP k (some r) else w.requestP
        phase := update w.phase k (.waiting r)
        code := update w.code k (some .success) }
    else none

def commonRequestCallback (k r : Nat) (status : UcsStatus) :
    Option (World C A) :=
  let o := { w.objs r with status := status }
  let w := { w with
    objs := update w.objs r o
    outcome := update w.outcome k (some status) }
  match o.connection with
  | some _ =>
    match o.callback with
    | some cb =>
      some { w.invoke k cb o.arg status with
        phase := update w.phase k (.userCallback (some r) none) }
    | none => some w
  | none =>
    if o.op = .unknown then
      some { w with objs := update w.objs r { o with
        connection := some call.userData
        op := call.op } }
    else none

def callbackReturn (k : Nat) (r : Option Nat)
    (code : Option DocaError) (result : DocaError) : World C A :=
  let w := w.noteResult result
  match code with
  | some code => w.finishProcess call k r code
  | none =>
    let w := match r with
      | some r => w.requestRelease k r
      | none => w
    { w with phase := update w.phase k (.finished r) }

end World

/-! ## Events -/

inductive UcxEvent where
  | start (k : Nat) (ptr : StatusPtr)
  | process (k : Nat)
  | complete (k : Nat) (status : UcsStatus)
  | callbackReturn (k : Nat) (result : DocaError)
  | release (k : Nat)

def UcxEvent.op : UcxEvent → Nat
  | start k _ => k
  | process k => k
  | complete k _ => k
  | callbackReturn k _ => k
  | release k => k

def StatusPtr.outcome : StatusPtr → Option UcsStatus
  | null => some .ok
  | error code => some (.error code)
  | request _ => none

def StatusPtr.object : StatusPtr → Option Nat
  | null => none
  | error _ => none
  | request r => some r

def Phase.held : Phase → Option Nat
  | idle => none
  | returned ptr => ptr.object
  | userCallback r _ => r
  | waiting r => some r
  | finished _ => none

def Phase.object : Phase → Option Nat
  | finished r => r
  | phase => phase.held

variable (w : World C A)

/-- UCX gives away free objects and reports each completion once; the user waits for a request before
    releasing it. -/
def UcxEnabled : UcxEvent → Prop
  | .start k ptr => w.phase k = .idle ∧ ∀ r, ptr = .request r → r ∉ w.busy
  | .process k => ∃ ptr, w.phase k = .returned ptr
  | .complete k status => status ≠ .inProgress ∧ w.outcome k = none ∧
    ∃ r, w.phase k = .returned (.request r) ∨ w.phase k = .waiting r
  | .callbackReturn k _ => ∃ r code, w.phase k = .userCallback r code
  | .release k => (∃ r, w.phase k = .waiting r) ∧ (w.outcome k).isSome = true

variable (calls : Nat → UcxCall C A)

def ucxStep (w : World C A) : UcxEvent → Option (World C A)
  | .start k ptr => some { w with
      busy := match ptr with
        | .request r => r :: w.busy
        | _ => w.busy
      phase := update w.phase k (.returned ptr)
      outcome := update w.outcome k ptr.outcome
      object := update w.object k ptr.object }
  | .process k =>
    match w.phase k with
    | .returned ptr => w.requestProcess (calls k) k ptr
    | _ => none
  | .complete k status =>
    match (w.phase k).held with
    | some r => w.commonRequestCallback (calls k) k r status
    | none => none
  | .callbackReturn k result =>
    match w.phase k with
    | .userCallback r code => some (w.callbackReturn (calls k) k r code result)
    | _ => none
  | .release k =>
    match w.phase k with
    | .waiting r =>
      some { w.requestRelease k r with phase := update w.phase k (.finished (some r)) }
    | _ => none

/-! ## The invariant -/

variable (call : UcxCall C A)

/-- The object of an operation that `request_process` has left to the completion callback. -/
def UcxCall.processed : UcxRequest C A :=
  ⟨call.callback, call.arg, some call.connection, call.logErr, .inProgress, call.op⟩

def UcxCall.fired (status : UcsStatus) : UcxRequest C A :=
  { UcxRequest.init with status := status, connection := some call.userData, op := call.op }

def UcxCall.calledWith (status : UcsStatus) : List (C × Option A × UcsStatus) :=
  call.callback.toList.map fun cb => (cb, call.arg, status)

def OpOk (objs : Nat → UcxRequest C A) (outcome : Option UcsStatus)
    (invoked : List (C × Option A × UcsStatus)) (released : List Nat) : Phase → Prop
  | .idle => outcome = none ∧ invoked = [] ∧ released = []
  | .returned (.request r) => invoked = [] ∧ released = [] ∧ ((outcome = none ∧ objs r = .init) ∨
      ∃ s, s ≠ .inProgress ∧ outcome = some s ∧ objs r = call.fired s)
  | .returned ptr => invoked = [] ∧ released = [] ∧ outcome = ptr.outcome
  | .userCallback r code => released = [] ∧ (code = none → r.isSome = true) ∧
    ∃ cb s, call.callback = some cb ∧ outcome = some s ∧ invoked = [(cb, call.arg, s)]
  | .waiting r => invoked = [] ∧ released = [] ∧
    (outcome = none → objs r = call.processed) ∧ (outcome ≠ none → call.callback = none)
  | .finished r => released = r.toList ∧ ∃ s, outcome = some s ∧ invoked = call.calledWith s

def firstError (results : List DocaError) : DocaError :=
  (results.find? fun r => decide (r ≠ .success)).getD .success

theorem firstError_append (results : List DocaError) (r : DocaError) :
    firstError (results ++ [r]) = if firstError results = .success then r else firstError results := by
  unfold firstError
  rw [List.find?_append]
  cases hfind : results.find? fun r => decide (r ≠ .success) with
  | none =>
    by_cases hr : r = .success
    · simp [hr]
    · simp [hr]
  | some e =>
    have he := List.find?_some hfind
    have hne : e ≠ .success := of_decide_eq_true he
    simp [hne]

structure UcxInv (w : World C A) : Prop where
  initial : ∀ r, r ∉ w.busy → w.objs r = .init
  nodup : w.busy.Nodup
  busy : ∀ r, r ∈ w.busy ↔ ∃ k, (w.phase k).held = some r
  own : ∀ k k' r, (w.phase k).held = some r → (w.phase k').held = some r → k = k'
  object : ∀ k, w.object k = (w.phase k).object
  op : ∀ k, OpOk (calls k) w.objs (w.outcome k) (w.invoked k) (w.released k) (w.phase k)
  errno : w.errno = firstError w.results

theorem UcxInv.init : UcxInv calls World.init where
  initial := fun _ _ => rfl
  nodup := List.nodup_nil
  busy := fun _ => ⟨fun h => absurd h List.not_mem_nil, fun ⟨_, h⟩ => nomatch h⟩
  own := fun _ _ _ h => nomatch h
  object := fun _ => rfl
  op := fun _ => ⟨rfl, rfl, rfl⟩
  errno := rfl

theorem OpOk.congr {call : UcxCall C A} {objs objs' : Nat → UcxRequest C A}
    {outcome : Option UcsStatus} {invoked : List (C × Option A × UcsStatus)} {released : List Nat}
    {phase : Phase} (h : OpOk call objs outcome invoked released phase)
    (hobjs : ∀ r, phase.held = some r → objs' r = objs r) :
    OpOk call objs' outcome invoked released phase := by
  match phase with
  | .idle => exact h
  | .returned .null => exact h
  | .returned (.error _) => exact h
  | .returned (.request r) =>
    simp only [OpOk, hobjs r rfl]
    exact h
  | .userCallback _ _ => exact h
  | .waiting r =>
    simp only [OpOk, hobjs r rfl]
    exact h
  | .finished _ => exact h

variable {calls : Nat → UcxCall C A} {w w' : World C A} {k : Nat}

structure SameOthers (k : Nat) (w w' : World C A) : Prop where
  phase : ∀ k', k' ≠ k → w'.phase k' = w.phase k'
  outcome : ∀ k', k' ≠ k → w'.outcome k' = w.outcome k'
  object : ∀ k', k' ≠ k → w'.object k' = w.object k'
  invoked : ∀ k', k' ≠ k → w'.invoked k' = w.invoked k'
  released : ∀ k', k' ≠ k → w'.released k' = w.released k'

section

variable (h : UcxInv calls w) (hs : SameOthers k w w')

include h hs

theorem UcxInv.op_update (hobjs : ∀ k' r, k' ≠ k → (w.phase k').held = some r → w'.objs r = w.objs r)
    (hop : OpOk (calls k) w'.objs (w'.outcome k) (w'.invoked k) (w'.released k) (w'.phase k))
    (k' : Nat) :
    OpOk (calls k') w'.objs (w'.outcome k') (w'.invoked k') (w'.released k') (w'.phase k') := by
  by_cases hk : k' = k
  · subst hk
    exact hop
  · rw [hs.phase k' hk, hs.outcome k' hk, hs.invoked k' hk, hs.released k' hk]
    exact (h.op k').congr fun r hr => hobjs k' r hk hr

theorem UcxInv.object_update (hobject : w'.object k = (w'.phase k).object) (k' : Nat) :
    w'.object k' = (w'.phase k').object := by
  by_cases hk : k' = k
  · subst hk
    exact hobject
  · rw [hs.object k' hk, hs.phase k' hk]
    exact h.object k'

variable (hobject : w'.object k = (w'.phase k).object)
  (hop : OpOk (calls k) w'.objs (w'.outcome k) (w'.invoked k) (w'.released k) (w'.phase k))
  (herrno : w'.errno = firstError w'.results)

include hobject hop herrno

theorem UcxInv.objects (hnodup : w'.busy.Nodup)
    (hbusy : ∀ r, r ∈ w'.busy ↔ (w'.phase k).held = some r ∨ r ∈ w.busy ∧ (w.phase k).held ≠ some r)
    (hfree : ∀ r, (w'.phase k).held = some r → r ∈ w.busy → (w.phase k).held = some r)
    (hobjs : ∀ r, (w.phase k).held ≠ some r → w'.objs r = w.objs r)
    (hback : ∀ r ∈ w.busy, r ∉ w'.busy → w'.objs r = .init) : UcxInv calls w' := by
  have hother : ∀ k' r, k' ≠ k → (w'.phase k').held = some r → (w'.phase k).held ≠ some r := by
    intro k' r hne hk' hk
    rw [hs.phase k' hne] at hk'
    exact hne (h.own k' k r hk' (hfree r hk ((h.busy r).mpr ⟨k', hk'⟩)))
  refine ⟨fun r hr => ?_, hnodup, fun r => ?_, fun k₁ k₂ r h₁ h₂ => ?_, h.object_update hs hobject,
    h.op_update hs (fun k' r hk hr => hobjs r fun hk' => hk (h.own k' k r hr hk')) hop, herrno⟩
  · by_cases hold : r ∈ w.busy
    · exact hback r hold hr
    · rw [hobjs r fun hk => hold ((h.busy r).mpr ⟨k, hk⟩)]
      exact h.initial r hold
  · rw [hbusy]
    constructor
    · rintro (hk | ⟨hr, hne⟩)
      · exact ⟨k, hk⟩
      · obtain ⟨k', hk'⟩ := (h.busy r).mp hr
        refine ⟨k', ?_⟩
        rw [hs.phase k' fun heq => hne (heq ▸ hk')]
        exact hk'
    · rintro ⟨k', hk'⟩
      by_cases hk : k' = k
      · exact .inl (hk ▸ hk')
      · rw [hs.phase k' hk] at hk'
        exact .inr ⟨(h.busy r).mpr ⟨k', hk'⟩, fun heq => hk (h.own k' k r hk' heq)⟩
  · by_cases hk₁ : k₁ = k
    · by_cases hk₂ : k₂ = k
      · rw [hk₁, hk₂]
      · exact absurd (hk₁ ▸ h₁) (hother k₂ r hk₂ h₂)
    · by_cases hk₂ : k₂ = k
      · exact absurd (hk₂ ▸ h₂) (hother k₁ r hk₁ h₁)
      · rw [hs.phase _ hk₁] at h₁
        rw [hs.phase _ hk₂] at h₂
        exact h.own k₁ k₂ r h₁ h₂

theorem UcxInv.keep (hheld : (w'.phase k).held = (w.phase k).held)
    (hobjs : ∀ r, (w.phase k).held ≠ some r → w'.objs r = w.objs r) (hbusy : w'.busy = w.busy) :
    UcxInv calls w' := by
  refine h.objects hs hobject hop herrno (hbusy ▸ h.nodup) (fun r => ?_) (fun r hr _ => hheld ▸ hr)
    hobjs fun r hr hno => absurd (hbusy ▸ hr) hno
  rw [hbusy, hheld]
  by_cases hr : (w.phase k).held = some r
  · simp [hr, (h.busy r).mpr ⟨k, hr⟩]
  · simp [hr]

end

def GivesBack (k : Nat) : Option Nat → World C A → World C A → Prop
  | none, w, w' => w'.objs = w.objs ∧ w'.busy = w.busy ∧ w'.released = w.released
  | some r, w, w' => w'.objs = update w.objs r .init ∧ w'.busy = w.busy.erase r ∧
    w'.released = update w.released k (w.released k ++ [r])

section

variable (h : UcxInv calls w)

include h

theorem UcxInv.finish {r : Option Nat} (hheld : (w.phase k).held = r)
    (hrel : w.released k = []) {s : UcsStatus} (hout : w.outcome k = some s)
    (hinv : w.invoked k = (calls k).calledWith s)
    (hphase : w'.phase = update w.phase k (.finished r)) (houtcome : w'.outcome = w.outcome)
    (hobjs : w'.object = w.object) (hinvoked : w'.invoked = w.invoked) (hback : GivesBack k r w w')
    (herrno : w'.errno = firstError w'.results) : UcxInv calls w' := by
  have hself : w'.phase k = .finished r := by rw [hphase, update_self]
  have hs : ∀ k', k' ≠ k → w'.released k' = w.released k' := by
    intro k' hk
    cases r with
    | none => rw [hback.2.2]
    | some r => rw [hback.2.2, update_of_ne hk]
  have hsame : SameOthers k w w' :=
    ⟨fun k' hk => by rw [hphase, update_of_ne hk], fun k' _ => by rw [houtcome],
      fun k' _ => by rw [hobjs], fun k' _ => by rw [hinvoked], hs⟩
  have hobject : w'.object k = (w'.phase k).object := by
    have hold : (w.phase k).object = (w.phase k).held := by
      cases hp : w.phase k with
      | finished r' =>
        have hop := h.op k
        rw [hp] at hop hheld
        rw [hop.1] at hrel
        cases r' with
        | none => rfl
        | some r' => cases hrel
      | idle => rfl
      | returned ptr => rfl
      | userCallback r' code => rfl
      | waiting r' => rfl
    rw [hobjs, h.object k, hself, hold, hheld]
    rfl
  have hdone : w'.released k = r.toList := by
    cases r with
    | none => rw [hback.2.2, hrel]; rfl
    | some r => rw [hback.2.2, update_self, hrel]; rfl
  have hop : OpOk (calls k) w'.objs (w'.outcome k) (w'.invoked k) (w'.released k) (w'.phase k) := by
    rw [hself]
    exact ⟨hdone, s, by rw [houtcome, hout], by rw [hinvoked, hinv]⟩
  cases r with
  | none =>
    refine h.keep hsame hobject hop herrno ?_ (fun r _ => by rw [hback.1]) hback.2.1
    rw [hself, hheld]
    rfl
  | some r =>
    obtain ⟨hobjs, hbusy, -⟩ := hback
    have hmem : ∀ r', r' ∈ w'.busy ↔ r' ≠ r ∧ r' ∈ w.busy := fun r' => by
      rw [hbusy, h.nodup.mem_erase_iff]
    refine h.objects hsame hobject hop herrno (hbusy ▸ h.nodup.erase r) (fun r' => ?_)
      (fun r' hr' => ?_) (fun r' hr' => ?_) fun r' hr' hno => ?_
    · rw [hmem, hself, hheld]
      simp [Phase.held, eq_comm, and_comm]
    · rw [hself] at hr'
      cases hr'
    · rw [hobjs, update_of_ne]
      rintro rfl
      exact hr' hheld
    · have heq : r' = r := by_contra fun hne => hno ((hmem r').mpr ⟨hne, hr'⟩)
      rw [hobjs, heq, update_self]

theorem UcxInv.finishProcess {r : Option Nat} (hheld : (w.phase k).held = r)
    (hrel : w.released k = []) {s : UcsStatus} (hout : w.outcome k = some s)
    (hinv : w.invoked k = (calls k).calledWith s) (code : DocaError) :
    UcxInv calls (w.finishProcess (calls k) k r code) := by
  refine h.finish hheld hrel hout hinv ?_ ?_ ?_ ?_ ?_ ?_
  all_goals
    unfold World.finishProcess
    cases r <;> cases (calls k).wantsRequest
  all_goals first | rfl | exact ⟨rfl, rfl, rfl⟩ | exact h.errno

theorem UcxInv.userRequestComplete {r : Option Nat}
    (hheld : (w.phase k).held = r) (hrel : w.released k = []) (hinvoked : w.invoked k = [])
    (hobject : (w.phase k).object = r) {s : UcsStatus} (hout : w.outcome k = some s)
    (code : DocaError) : UcxInv calls (w.userRequestComplete (calls k) k s r code) := by
  unfold World.userRequestComplete
  cases hcb : (calls k).callback with
  | none =>
    refine h.finishProcess hheld hrel hout ?_ code
    rw [hinvoked, UcxCall.calledWith, hcb]
    rfl
  | some cb =>
    refine h.keep (k := k) ⟨fun k' hk => ?_, fun _ _ => rfl, fun _ _ => rfl, fun k' hk => ?_,
      fun _ _ => rfl⟩ ?_ ?_ h.errno ?_ (fun _ _ => rfl) rfl
    · exact update_of_ne hk _ _
    · exact update_of_ne hk _ _
    · simp only [update_self]
      exact (h.object k).trans hobject
    · simp only [update_self]
      refine ⟨hrel, nofun, cb, s, hcb, hout, ?_⟩
      simp [World.invoke, hinvoked]
    · simp only [update_self]
      exact hheld.symm

theorem UcxInv.start {ptr : StatusPtr} (hidle : w.phase k = .idle)
    (hfree : ∀ r, ptr = .request r → r ∉ w.busy) :
    ∃ w', ucxStep calls w (.start k ptr) = some w' ∧ UcxInv calls w' := by
  have hop := h.op k
  rw [hidle] at hop
  obtain ⟨hout, hinv, hrel⟩ := hop
  refine ⟨_, rfl, ?_⟩
  have hsame : ∀ busy, SameOthers k w { w with
      busy := busy
      phase := update w.phase k (.returned ptr)
      outcome := update w.outcome k ptr.outcome
      object := update w.object k ptr.object } := fun _ =>
    ⟨fun _ hk => update_of_ne hk _ _, fun _ hk => update_of_ne hk _ _,
      fun _ hk => update_of_ne hk _ _, fun _ _ => rfl, fun _ _ => rfl⟩
  have hobject : ∀ w' : World C A, w'.phase k = .returned ptr → w'.object k = ptr.object →
      w'.object k = (w'.phase k).object := by
    intro w' hp ho
    rw [hp, ho]
    rfl
  cases ptr with
  | null | error code =>
    refine h.keep (hsame _) (hobject _ ?_ ?_) ?_ h.errno ?_ (fun _ _ => rfl) rfl
    · exact update_self ..
    · exact update_self ..
    · simp only [update_self]
      exact ⟨hinv, hrel, rfl⟩
    · simp only [update_self, hidle, Phase.held, StatusPtr.object]
  | request r =>
    have hr := hfree r rfl
    refine h.objects (hsame _) (hobject _ ?_ ?_) ?_ h.errno (List.nodup_cons.mpr ⟨hr, h.nodup⟩)
      (fun r' => ?_) (fun r' hr' hold => ?_) (fun _ _ => rfl) fun r' hr' hno => ?_
    · exact update_self ..
    · exact update_self ..
    · simp only [update_self]
      exact ⟨hinv, hrel, .inl ⟨rfl, h.initial r hr⟩⟩
    · simp [hidle, Phase.held, StatusPtr.object, eq_comm]
    · simp only [update_self] at hr'
      cases hr'
      exact absurd hold hr
    · exact absurd (List.mem_cons_of_mem r hr') hno

theorem UcxInv.process {ptr : StatusPtr} (hphase : w.phase k = .returned ptr) :
    ∃ w', ucxStep calls w (.process k) = some w' ∧ UcxInv calls w' := by
  have hop := h.op k
  rw [hphase] at hop
  simp only [ucxStep, hphase]
  cases ptr with
  | null | error code =>
    obtain ⟨hinv, hrel, hout⟩ := hop
    exact ⟨_, rfl, h.userRequestComplete (by rw [hphase]; rfl) hrel hinv (by rw [hphase]; rfl) hout _⟩
  | request r =>
    obtain ⟨hinv, hrel, ⟨hout, hobj⟩ | ⟨s, hs, hout, hobj⟩⟩ := hop
    · have hstatus : (w.objs r).status = .inProgress := by rw [hobj]; rfl
      have hunknown : (w.objs r).op = .unknown := by rw [hobj]; rfl
      simp only [World.requestProcess, hstatus, ne_eq, not_true_eq_false, if_false, hunknown, if_true]
      refine ⟨_, rfl, h.keep (k := k) ⟨fun _ hk => update_of_ne hk _ _, fun _ _ => rfl,
        fun _ _ => rfl, fun _ _ => rfl, fun _ _ => rfl⟩ ?_ ?_ h.errno ?_ (fun r' hr' => ?_) rfl⟩
      · simp only [update_self, h.object k, hphase]
        rfl
      · simp only [update_self]
        refine ⟨hinv, hrel, fun _ => ?_, fun hne => absurd hout hne⟩
        rw [update_self]
        rfl
      · simp only [update_self, hphase, Phase.held, StatusPtr.object]
      · refine update_of_ne ?_ _ _
        rintro rfl
        exact hr' (by rw [hphase]; rfl)
    · have hstatus : (w.objs r).status = s := by rw [hobj]; rfl
      have hkind : (w.objs r).op = (calls k).op := by rw [hobj]; rfl
      simp only [World.requestProcess, hstatus, ne_eq, hs, not_false_eq_true, if_true, hkind]
      exact ⟨_, rfl, h.userRequestComplete (by rw [hphase]; rfl) hrel hinv (by rw [hphase]; rfl) hout _⟩

theorem UcxInv.complete {s : UcsStatus} (hs : s ≠ .inProgress) (hout : w.outcome k = none) {r : Nat}
    (hphase : w.phase k = .returned (.request r) ∨ w.phase k = .waiting r) :
    ∃ w', ucxStep calls w (.complete k s) = some w' ∧ UcxInv calls w' := by
  have hop := h.op k
  have hheld : (w.phase k).held = some r := by
    rcases hphase with hphase | hphase
    · rw [hphase]; rfl
    · rw [hphase]; rfl
  have hoff : ∀ (o : UcxRequest C A) r', (w.phase k).held ≠ some r' →
      update w.objs r o r' = w.objs r' := by
    intro o r' hr'
    refine update_of_ne ?_ _ _
    rintro rfl
    exact hr' hheld
  simp only [ucxStep, hheld]
  rcases hphase with hphase | hphase
  · rw [hphase] at hop
    obtain ⟨hinv, hrel, ⟨-, hobj⟩ | ⟨s', -, hout', -⟩⟩ := hop
    · simp only [World.commonRequestCallback, hobj, UcxRequest.init, if_true]
      refine ⟨_, rfl, h.keep (k := k) ⟨fun _ _ => rfl, fun _ hk => update_of_ne hk _ _,
        fun _ _ => rfl, fun _ _ => rfl, fun _ _ => rfl⟩ (h.object k) ?_ h.errno rfl
        (fun r' hr' => ?_) rfl⟩
      · simp only [update_self, hphase]
        refine ⟨hinv, hrel, .inr ⟨s, hs, rfl, ?_⟩⟩
        rw [update_self]
        rfl
      · simp only [update_idem]
        exact hoff _ r' hr'
    · rw [hout] at hout'
      cases hout'
  · rw [hphase] at hop
    obtain ⟨hinv, hrel, hobj, -⟩ := hop
    have hobj := hobj hout
    simp only [World.commonRequestCallback, hobj, UcxCall.processed]
    cases hcb : (calls k).callback with
    | none =>
      refine ⟨_, rfl, h.keep (k := k) ⟨fun _ _ => rfl, fun _ hk => update_of_ne hk _ _,
        fun _ _ => rfl, fun _ _ => rfl, fun _ _ => rfl⟩ (h.object k) ?_ h.errno rfl (hoff _) rfl⟩
      simp only [update_self, hphase]
      exact ⟨hinv, hrel, nofun, fun _ => hcb⟩
    | some cb =>
      refine ⟨_, rfl, h.keep (k := k) ⟨fun _ hk => update_of_ne hk _ _,
        fun _ hk => update_of_ne hk _ _, fun _ _ => rfl,
        fun _ hk => update_of_ne hk _ _, fun _ _ => rfl⟩ ?_ ?_ h.errno ?_ (hoff _) rfl⟩
      · simp only [update_self]
        rw [World.invoke, h.object k, hphase]
        rfl
      · simp only [World.invoke, update_self]
        exact ⟨hrel, fun _ => rfl, cb, s, hcb, rfl, by simp [hinv]⟩
      · simp only [update_self, Phase.held]
        exact hheld.symm

theorem UcxInv.callbackReturn {r : Option Nat} {code : Option DocaError}
    (hphase : w.phase k = .userCallback r code) (result : DocaError) :
    UcxInv calls (w.callbackReturn (calls k) k r code result) := by
  have hop := h.op k
  rw [hphase] at hop
  obtain ⟨hrel, -, cb, s, hcb, hout, hinv⟩ := hop
  have hcalled : w.invoked k = (calls k).calledWith s := by
    rw [hinv, UcxCall.calledWith, hcb]
    rfl
  have hnoted : UcxInv calls (w.noteResult result) := by
    refine h.keep (k := k) ⟨fun _ _ => rfl, fun _ _ => rfl, fun _ _ => rfl, fun _ _ => rfl,
      fun _ _ => rfl⟩ (h.object k) (h.op k) ?_ rfl (fun _ _ => rfl) rfl
    simp only [World.noteResult, firstError_append, h.errno]
  have hheld : ((w.noteResult result).phase k).held = r := congrArg Phase.held hphase
  unfold World.callbackReturn
  cases code with
  | some code => exact hnoted.finishProcess hheld hrel hout hcalled code
  | none =>
    refine hnoted.finish hheld hrel hout hcalled ?_ ?_ ?_ ?_ ?_ ?_
    all_goals cases r
    all_goals first | rfl | exact ⟨rfl, rfl, rfl⟩ | exact hnoted.errno

/-- **No assertion fails, and every event keeps the invariant.** -/
theorem UcxInv.step {e : UcxEvent} (hen : UcxEnabled w e) :
    ∃ w', ucxStep calls w e = some w' ∧ UcxInv calls w' := by
  cases e with
  | start k ptr => exact h.start hen.1 hen.2
  | process k =>
    obtain ⟨ptr, hphase⟩ := hen
    exact h.process hphase
  | complete k s =>
    obtain ⟨hs, hout, r, hphase⟩ := hen
    exact h.complete hs hout hphase
  | callbackReturn k result =>
    obtain ⟨r, code, hphase⟩ := hen
    exact ⟨_, by simp only [ucxStep, hphase], h.callbackReturn hphase result⟩
  | release k =>
    obtain ⟨⟨r, hphase⟩, hsome⟩ := hen
    obtain ⟨s, hout⟩ := Option.isSome_iff_exists.mp hsome
    have hop := h.op k
    rw [hphase] at hop
    obtain ⟨hinv, hrel, -, hcb⟩ := hop
    have hcb := hcb (by rw [hout]; nofun)
    refine ⟨_, by simp only [ucxStep, hphase]; rfl, ?_⟩
    refine h.finish (r := some r) (by rw [hphase]; rfl) hrel hout ?_ rfl rfl rfl rfl
      ⟨rfl, rfl, rfl⟩ h.errno
    rw [hinv, UcxCall.calledWith, hcb]
    rfl

end

theorem ucx_reach_inv (h : Reach (ucxStep calls) UcxEnabled World.init w) : UcxInv calls w := by
  refine h.invariant (UcxInv.init calls) fun w e w' hw hen hstep => ?_
  obtain ⟨w'', hstep', hinv⟩ := hw.step hen
  rw [hstep] at hstep'
  cases hstep'
  exact hinv

/-- What users rely on: no assertion fails; a finished operation has called back once with its status and
    released its object once; others can go on; the user releases only requests without callback; objects
    of no operation are in their initial state; `callback_errno` is the first error. -/
structure CompletesOnce (calls : Nat → UcxCall C A) (w : World C A) : Prop where
  noAssert : ∀ e, UcxEnabled w e → ∃ w', ucxStep calls w e = some w'
  finished : ∀ k r, w.phase k = .finished r → ∃ s, w.outcome k = some s ∧
    w.invoked k = (calls k).calledWith s ∧ w.released k = (w.object k).toList
  atMostOnce : ∀ k, (w.invoked k).length ≤ 1 ∧ (w.released k).length ≤ 1
  progress : ∀ k, w.phase k ≠ .idle → (∀ r, w.phase k ≠ .finished r) →
    ∃ e, UcxEvent.op e = k ∧ UcxEnabled w e
  release : ∀ k, UcxEnabled w (.release k) → (calls k).callback = none
  initial : ∀ r, (∀ k, (w.phase k).held ≠ some r) → w.objs r = .init
  errno : w.errno = firstError w.results

theorem UcxCall.calledWith_length (s : UcsStatus) :
    (call.calledWith s).length ≤ 1 := by
  unfold UcxCall.calledWith
  cases call.callback with
  | none => exact Nat.zero_le _
  | some cb => exact Nat.le_refl _

theorem OpOk.atMostOnce {call : UcxCall C A} {objs : Nat → UcxRequest C A}
    {outcome : Option UcsStatus} {invoked : List (C × Option A × UcsStatus)} {released : List Nat}
    {phase : Phase} (h : OpOk call objs outcome invoked released phase) :
    invoked.length ≤ 1 ∧ released.length ≤ 1 := by
  match phase with
  | .idle =>
    obtain ⟨-, rfl, rfl⟩ := h
    exact ⟨Nat.zero_le _, Nat.zero_le _⟩
  | .returned .null | .returned (.error _) | .returned (.request _) | .waiting _ =>
    obtain ⟨rfl, rfl, -⟩ := h
    exact ⟨Nat.zero_le _, Nat.zero_le _⟩
  | .userCallback _ _ =>
    obtain ⟨rfl, -, cb, s, -, -, rfl⟩ := h
    exact ⟨Nat.le_refl _, Nat.zero_le _⟩
  | .finished r =>
    obtain ⟨rfl, s, -, rfl⟩ := h
    refine ⟨call.calledWith_length s, ?_⟩
    cases r with
    | none => exact Nat.zero_le _
    | some r => exact Nat.le_refl _

/-- **Every UCX operation completes exactly once**, in whatever order UCX, the functions of this file
    and the user callbacks run. -/
theorem ucx_completes_once (h : Reach (ucxStep calls) UcxEnabled World.init w) :
    CompletesOnce calls w := by
  have hinv := ucx_reach_inv h
  refine ⟨fun e hen => ?_, fun k r hk => ?_, fun k => (hinv.op k).atMostOnce, fun k hidle hfin => ?_,
    fun k hen => ?_, fun r hr => ?_, hinv.errno⟩
  · obtain ⟨w', hstep, -⟩ := hinv.step hen
    exact ⟨w', hstep⟩
  · have hop := hinv.op k
    have hobj := hinv.object k
    rw [hk] at hop hobj
    obtain ⟨hrel, s, hout, hinvoked⟩ := hop
    exact ⟨s, hout, hinvoked, by rw [hrel, hobj]; rfl⟩
  · cases hp : w.phase k with
    | idle => exact absurd hp hidle
    | returned ptr => exact ⟨.process k, rfl, ptr, hp⟩
    | userCallback r code => exact ⟨.callbackReturn k .success, rfl, r, code, hp⟩
    | waiting r =>
      cases hout : w.outcome k with
      | none => exact ⟨.complete k .ok, rfl, nofun, hout, r, .inr hp⟩
      | some s => exact ⟨.release k, rfl, ⟨r, hp⟩, by rw [hout]; rfl⟩
    | finished r => exact absurd hp (hfin r)
  · obtain ⟨⟨r, hp⟩, hsome⟩ := hen
    have hop := hinv.op k
    rw [hp] at hop
    refine hop.2.2.2 fun hnone => ?_
    rw [hnone] at hsome
    cases hsome
  · refine hinv.initial r fun hbusy => ?_
    obtain ⟨k, hk⟩ := (hinv.busy r).mp hbusy
    exact hr k hk

def someSend : UcxCall Nat Nat := ⟨.amSend, 1, 1, some 7, some 8, true, false⟩

/-- Two sends use the same object one after the other: the first completes before `request_process`
    runs, with an error; the second one later. -/
theorem ucx_completes_once_recycled :
    ∃ w : World Nat Nat, Reach (ucxStep fun _ => someSend) UcxEnabled World.init w ∧
      w.phase 1 = .finished (some 0) ∧ w.released 0 = [0] ∧
      w.invoked 0 = [(7, some 8, .error 3)] ∧ w.invoked 1 = [(7, some 8, .ok)] ∧
      w.errno = .ioFailed ∧ CompletesOnce (fun _ => someSend) w := by
  have h₁ : Reach (ucxStep fun _ => someSend) UcxEnabled (World.init : World Nat Nat) _ :=
    .tail (e := UcxEvent.start 0 (.request 0)) .init ⟨rfl, fun _ _ => List.not_mem_nil⟩ rfl
  have h₂ := h₁.tail (e := UcxEvent.complete 0 (.error 3)) ⟨nofun, rfl, 0, .inl rfl⟩ rfl
  have h₃ := h₂.tail (e := UcxEvent.process 0) ⟨_, rfl⟩ rfl
  have h₄ := h₃.tail (e := UcxEvent.callbackReturn 0 .ioFailed) ⟨_, _, rfl⟩ rfl
  have h₅ := h₄.tail (e := UcxEvent.start 1 (.request 0)) ⟨rfl, fun _ _ => List.not_mem_nil⟩ rfl
  have h₆ := h₅.tail (e := UcxEvent.process 1) ⟨_, rfl⟩ rfl
  have h₇ := h₆.tail (e := UcxEvent.complete 1 .ok) ⟨nofun, rfl, 0, .inr rfl⟩ rfl
  have h₈ := h₇.tail (e := UcxEvent.callbackReturn 1 .success) ⟨_, _, rfl⟩ rfl
  exact ⟨_, h₈, rfl, rfl, rfl, rfl, rfl, ucx_completes_once h₈⟩

end Doca.AllReduce
