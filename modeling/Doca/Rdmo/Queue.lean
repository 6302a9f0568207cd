import Doca.Common.Error
import Doca.Lib.Interleaving

/-!
# RDMO worker: queues and fences

Model of `urom_worker_rdmo_req_queue`, `urom_worker_rdmo_req_start`, `urom_worker_rdmo_check_fenced`,
`urom_worker_rdmo_check_paused`, `urom_worker_rdmo_req_complete` and `urom_worker_rdmo_op_cb`
(`worker_rdmo_ops.c`) for any number of clients and endpoints.

* `Req` — `struct urom_worker_rdmo_req`; `seq` tells the objects apart, `body` is what the operation
  needs.
* A progress function is a parameter: it returns a status, and may change the `pause` flag of its
  client and a state of its own.

The loops over a list take the list as an argument: nothing is added to it while they run.

Principal result: `fences_and_order` — for all progress functions, requests of one client and endpoint
start in arrival order, a fenced request starts only if no other request of its endpoint runs, and
`oreqs` counts the requests that run.
-/

namespace Doca.Rdmo

open Doca.Lib Function List

structure Req (B : Type) where
  seq : Nat
  client : Nat
  ep : Nat
  fence : Bool
  body : B
  deriving DecidableEq

structure Start (B : Type) where
  req : Req B
  paused : Bool
  running : List (Req B)

/-- The queues of a worker: `pause` and `paused_ops` of each client, `fenced_ops` and `oreqs` of each
    endpoint, the state `inner` of the progress functions, the history. -/
structure QState (B S : Type) where
  pause : Nat → Bool
  paused : Nat → List (Req B)
  fenced : Nat → List (Req B)
  oreqs : Nat → Int
  inner : S
  arrived : List (Req B)
  starts : List (Start B)
  running : List (Req B)
  finished : List (Req B)

structure Outcome (S : Type) where
  status : DocaError
  pause : Bool
  inner : S

abbrev Progress (B S : Type) := Req B → Bool → S → Outcome S

variable {B S : Type} [DecidableEq B]

namespace QState

def idle (inner : S) : QState B S :=
  ⟨fun _ => false, fun _ => [], fun _ => [], fun _ => 0, inner, [], [], [], []⟩

variable (pf : Progress B S) (r : Req B)

def progress (w : QState B S) : DocaError × QState B S :=
  let o := pf r (w.pause r.client) w.inner
  (o.status, { w with pause := update w.pause r.client o.pause, inner := o.inner })

def reqFree (w : QState B S) : QState B S :=
  { w with
    oreqs := update w.oreqs r.ep (w.oreqs r.ep - 1)
    running := w.running.erase r
    finished := r :: w.finished }

def begin (w : QState B S) : QState B S :=
  { w with
    oreqs := update w.oreqs r.ep (w.oreqs r.ep + 1)
    starts := w.starts ++ [⟨r, w.pause r.client, w.running.filter fun q => q.ep = r.ep⟩]
    running := r :: w.running }

def settle (o : DocaError × QState B S) : QState B S :=
  if o.1 = .success then reqFree r o.2 else o.2

def reqStart (w : QState B S) : DocaError × QState B S :=
  if w.fenced r.ep ≠ [] ∨ (r.fence = true ∧ w.oreqs r.ep ≠ 0) then
    (.inProgress, { w with fenced := update w.fenced r.ep (w.fenced r.ep ++ [r]) })
  else progress pf r (begin r w)

def fencedLoop (e : Nat) : List (Req B) → QState B S → QState B S
  | [], w => w
  | r :: rest, w =>
    if r.fence = true ∧ w.oreqs e ≠ 0 then w
    else fencedLoop e rest
      (settle r (progress pf r (begin r { w with fenced := update w.fenced e rest })))

def checkFenced (e : Nat) (w : QState B S) : QState B S :=
  if w.oreqs e ≠ 0 then w else fencedLoop pf e (w.fenced e) w

def pausedLoop (c : Nat) : List (Req B) → QState B S → QState B S
  | [], w => w
  | r :: rest, w =>
    if w.pause c = true then w
    else pausedLoop c rest
      (settle r (reqStart pf r { w with paused := update w.paused c rest }))

def checkPaused (c : Nat) (w : QState B S) : QState B S :=
  pausedLoop pf c (w.paused c) w

def reqComplete (w : QState B S) : QState B S :=
  checkFenced pf r.ep (checkPaused pf r.client (reqFree r w))

def opCb (w : QState B S) : QState B S :=
  if (progress pf r w).1 = .success then reqComplete pf r (progress pf r w).2
  else (progress pf r w).2

def reqQueue (w : QState B S) : QState B S :=
  if w.paused r.client ≠ [] ∨ w.pause r.client = true then
    { w with paused := update w.paused r.client (w.paused r.client ++ [r]) }
  else settle r (reqStart pf r w)

end QState

open QState

/-- A request arrives or an operation is complete, with what the progress functions do then. -/
inductive QEvent (B S : Type) where
  | arrive (r : Req B) (pf : Progress B S)
  | callback (r : Req B) (pf : Progress B S)

def queueStep (w : QState B S) : QEvent B S → Option (QState B S)
  | .arrive r pf => some (reqQueue pf r { w with arrived := w.arrived ++ [r] })
  | .callback r pf => some (opCb pf r w)

def QEnabled (w : QState B S) : QEvent B S → Prop
  | .arrive r _ => r ∉ w.arrived
  | .callback r _ => r ∈ w.running

instance (w : QState B S) : (e : QEvent B S) → Decidable (QEnabled w e)
  | .arrive r _ => inferInstanceAs (Decidable (r ∉ w.arrived))
  | .callback r _ => inferInstanceAs (Decidable (r ∈ w.running))

/-! ## The invariant -/

def lane (c e : Nat) (rs : List (Req B)) : List (Req B) := rs.filter fun r => r.client = c ∧ r.ep = e

section Lanes

omit [DecidableEq B]

@[simp] theorem lane_nil (c e : Nat) : lane c e ([] : List (Req B)) = [] := rfl

@[simp] theorem lane_append (c e : Nat) (rs qs : List (Req B)) :
    lane c e (rs ++ qs) = lane c e rs ++ lane c e qs := filter_append ..

theorem lane_other {c e : Nat} {r : Req B} (h : ¬ (r.client = c ∧ r.ep = e)) : lane c e [r] = [] := by
  simp only [lane, filter_cons, decide_eq_true_eq, if_neg h, filter_nil]

variable {q : Nat → List (Req B)} {g : Req B → Nat} {c e j : Nat} {r : Req B} {rest : List (Req B)}

theorem lane_update_tail (hg : ∀ r, r.client = c ∧ r.ep = e → g r = j) (hhead : q (g r) = r :: rest) :
    lane c e (q j) = lane c e [r] ++ lane c e (update q (g r) rest j) := by
  by_cases hj : j = g r
  · rw [hj, update_self, hhead, ← lane_append, singleton_append]
  · rw [update_of_ne hj, lane_other fun hl => hj (hg r hl).symm, nil_append]

theorem lane_update_concat (hg : ∀ r, r.client = c ∧ r.ep = e → g r = j) :
    lane c e (update q (g r) (q (g r) ++ [r]) j) = lane c e (q j) ++ lane c e [r] := by
  by_cases hj : j = g r
  · rw [hj, update_self, lane_append]
  · rw [update_of_ne hj, lane_other fun hl => hj (hg r hl).symm, append_nil]

end Lanes

structure QInv (w : QState B S) : Prop where
  order : ∀ c e, lane c e w.arrived =
    lane c e (w.starts.map Start.req) ++ lane c e (w.fenced e) ++ lane c e (w.paused c)
  fenced : ∀ e, ∀ r ∈ w.fenced e, r.ep = e
  paused : ∀ c, ∀ r ∈ w.paused c, r.client = c
  distinct : w.arrived.Nodup
  started : (w.starts.map Start.req).Perm (w.running ++ w.finished)
  oreqs : ∀ e, w.oreqs e = (w.running.filter fun r => r.ep = e).length
  fences : ∀ s ∈ w.starts, s.req.fence = true → s.running = []

variable {w : QState B S} {pf : Progress B S} {r : Req B} {rest : List (Req B)}

section

omit [DecidableEq B]

theorem QInv.progress (h : QInv w) (pf : Progress B S) (r : Req B) : QInv (progress pf r w).2 :=
  ⟨h.order, h.fenced, h.paused, h.distinct, h.started, h.oreqs, h.fences⟩

theorem idle_inv (inner : S) : QInv (idle inner : QState B S) :=
  ⟨fun _ _ => rfl, fun _ _ hr => (nomatch hr), fun _ _ hr => (nomatch hr), nodup_nil,
    List.Perm.refl _, fun _ => rfl, fun _ hs => (nomatch hs)⟩

theorem begin_counts (h : QInv w) (r : Req B) :
    (((begin r w).starts.map Start.req).Perm ((begin r w).running ++ (begin r w).finished)) ∧
      ∀ e, (begin r w).oreqs e = ((begin r w).running.filter fun q => q.ep = e).length := by
  refine ⟨?_, fun e => ?_⟩
  · simp only [begin, map_append, map_cons, map_nil]
    exact (perm_append_singleton r _).trans (h.started.cons r)
  · have hcount := h.oreqs e
    by_cases he : e = r.ep
    · subst he
      simp only [begin, update_self, filter_cons, decide_true, if_true, length_cons]
      omega
    · simp only [begin, update_of_ne he, filter_cons, Ne.symm he, decide_false,
        Bool.false_eq_true, if_false]
      exact hcount

theorem QInv.none_running (h : QInv w) {e : Nat} (hzero : w.oreqs e = 0) :
    (w.running.filter fun q => q.ep = e) = [] := by
  have := h.oreqs e
  exact length_eq_zero_iff.mp (by omega)

theorem begin_fences (h : QInv w) (hfence : r.fence = true → w.oreqs r.ep = 0) :
    ∀ s ∈ (begin r w).starts, s.req.fence = true → s.running = [] := by
  intro s hs hf
  rcases mem_append.mp hs with hs | hs
  · exact h.fences s hs hf
  · rw [mem_singleton.mp hs] at hf ⊢
    exact h.none_running (hfence hf)

theorem forall_mem_update {α : Type} {f : Nat → List α} {P : Nat → α → Prop}
    (h : ∀ i, ∀ a ∈ f i, P i a) {i : Nat} {l : List α} (hl : ∀ a ∈ l, P i a) :
    ∀ j, ∀ a ∈ update f i l j, P j a := by
  intro j a ha
  rw [update_apply] at ha
  split at ha
  · rename_i hj
    exact hj ▸ hl a ha
  · exact h j a ha

theorem QInv.beginFenced (h : QInv w) {e : Nat} (hhead : w.fenced e = r :: rest)
    (hfence : r.fence = true → w.oreqs e = 0) :
    QInv (begin r { w with fenced := update w.fenced e rest }) := by
  have hep : r.ep = e := h.fenced e r (by rw [hhead]; exact mem_cons_self ..)
  subst hep
  obtain ⟨hstarted, horeqs⟩ := begin_counts h r
  have hfences := begin_fences h hfence
  have htail : ∀ q ∈ rest, q.ep = r.ep := fun q hq =>
    h.fenced _ q (by rw [hhead]; exact mem_cons_of_mem r hq)
  refine ⟨fun c e => ?_, forall_mem_update h.fenced htail, h.paused, h.distinct, hstarted, horeqs, hfences⟩
  have htail := lane_update_tail (c := c) (e := e) (g := Req.ep) (fun _ hl => hl.2) hhead
  simp only [begin, map_append, map_cons, map_nil, lane_append, h.order c e, htail, append_assoc]

/-- **`urom_worker_rdmo_req_start`** of the head of a paused list: it starts, or waits in the fenced
    list. -/
theorem QInv.reqStart (h : QInv w) (pf : Progress B S) {c : Nat} (hhead : w.paused c = r :: rest) :
    QInv (reqStart pf r { w with paused := update w.paused c rest }).2 ∧
      ((reqStart pf r { w with paused := update w.paused c rest }).1 = .success →
        r ∈ (reqStart pf r { w with paused := update w.paused c rest }).2.running) := by
  have hclient : r.client = c := h.paused c r (by rw [hhead]; exact mem_cons_self ..)
  subst hclient
  have htail := forall_mem_update (P := fun c q => q.client = c) h.paused fun q hq =>
    h.paused _ q (by rw [hhead]; exact mem_cons_of_mem r hq)
  have hlane : ∀ c e, lane c e (w.paused c) = _ := fun c e =>
    lane_update_tail (e := e) (g := Req.client) (fun _ hl => hl.1) hhead
  unfold QState.reqStart
  split
  · refine ⟨⟨fun c e => ?_, ?_, htail, h.distinct, h.started, h.oreqs, h.fences⟩,
      nofun⟩
    · rw [h.order c e, hlane c e, lane_update_concat (g := Req.ep) fun _ hl => hl.2, append_assoc,
        append_assoc, append_assoc]
    · refine forall_mem_update h.fenced fun q hq => ?_
      rcases mem_append.mp hq with hq | hq
      · exact h.fenced _ q hq
      · rw [mem_singleton.mp hq]
  · rename_i hstart
    simp only [not_or, not_and, Classical.not_not] at hstart
    obtain ⟨hempty, hfence⟩ := hstart
    obtain ⟨hstarted, horeqs⟩ := begin_counts h r
    have hfences := begin_fences h hfence
    refine ⟨QInv.progress (w := begin r { w with paused := update w.paused r.client rest })
      ⟨fun c e => ?_, h.fenced, htail, h.distinct, hstarted, horeqs, hfences⟩ pf r,
      fun _ => mem_cons_self ..⟩
    have hswap : lane c e (w.fenced e) ++ lane c e [r] = lane c e [r] ++ lane c e (w.fenced e) := by
      by_cases he : r.ep = e
      · rw [← he, hempty, lane_nil, nil_append, append_nil]
      · rw [lane_other fun hl => he hl.2, append_nil, nil_append]
    simp only [begin, map_append, map_cons, map_nil, lane_append]
    rw [h.order c e, hlane c e, ← append_assoc, append_assoc _ (lane c e (w.fenced e)), hswap,
      ← append_assoc]

theorem reqStart_paused (pf : Progress B S) (r : Req B) (w : QState B S) :
    (reqStart pf r w).2.paused = w.paused := by
  unfold QState.reqStart
  split <;> rfl

theorem QInv.arrive (h : QInv w) (hnew : r ∉ w.arrived) : QInv { w with
      arrived := w.arrived ++ [r]
      paused := update w.paused r.client (w.paused r.client ++ [r]) } := by
  refine ⟨fun c e => ?_, h.fenced, ?_, ?_, h.started, h.oreqs, h.fences⟩
  · dsimp only
    rw [lane_append, h.order c e, lane_update_concat (g := Req.client) fun _ hl => hl.1, ← append_assoc]
  · refine forall_mem_update h.paused fun q hq => ?_
    rcases mem_append.mp hq with hq | hq
    · exact h.paused _ q hq
    · rw [mem_singleton.mp hq]
  · exact List.Nodup.append h.distinct (nodup_singleton r) fun q hq hqr =>
      hnew (mem_singleton.mp hqr ▸ hq)

end

theorem QInv.reqFree (h : QInv w) (hr : r ∈ w.running) : QInv (reqFree r w) := by
  refine ⟨h.order, h.fenced, h.paused, h.distinct, ?_, fun e => ?_, h.fences⟩
  · refine h.started.trans ?_
    refine ((perm_cons_erase hr).append_right _).trans ?_
    exact perm_middle.symm
  · have hperm := ((perm_cons_erase hr).filter fun q => q.ep = e).length_eq
    have hcount := h.oreqs e
    by_cases he : e = r.ep
    · subst he
      simp only [filter_cons, decide_true, if_true, length_cons] at hperm
      simp only [QState.reqFree, update_self]
      omega
    · simp only [filter_cons, Ne.symm he, decide_false, Bool.false_eq_true, if_false] at hperm
      simp only [QState.reqFree, update_of_ne he]
      omega

theorem QInv.settle {o : DocaError × QState B S} (h : QInv o.2)
    (hr : o.1 = .success → r ∈ o.2.running) : QInv (settle r o) := by
  unfold QState.settle
  split
  · rename_i hok
    exact h.reqFree (hr hok)
  · exact h

/-! ## The loops -/

theorem settle_fenced (r : Req B) (o : DocaError × QState B S) : (settle r o).fenced = o.2.fenced := by
  unfold QState.settle
  split <;> rfl

theorem settle_paused (r : Req B) (o : DocaError × QState B S) : (settle r o).paused = o.2.paused := by
  unfold QState.settle
  split <;> rfl

theorem fencedLoop_rule {P : QState B S → Prop} {e : Nat}
    (hstep : ∀ {r : Req B} {rest : List (Req B)} {w : QState B S}, P w → w.fenced e = r :: rest →
      (r.fence = true → w.oreqs e = 0) → P (settle r (progress pf r
        (begin r { w with fenced := update w.fenced e rest })))) :
    ∀ {rest : List (Req B)} {w : QState B S}, P w → w.fenced e = rest → P (fencedLoop pf e rest w) := by
  intro rest
  induction rest with
  | nil => exact fun h _ => h
  | cons r rest ih =>
    intro w h hhead
    unfold QState.fencedLoop
    split
    · exact h
    rename_i hgo
    refine ih (hstep h hhead fun hf => ?_) ?_
    · by_contra hne
      exact hgo ⟨hf, hne⟩
    · rw [settle_fenced]
      simp [QState.progress, begin]

theorem pausedLoop_rule {P : QState B S → Prop} {c : Nat}
    (hstep : ∀ {r : Req B} {rest : List (Req B)} {w : QState B S}, P w → w.paused c = r :: rest →
      P (settle r (reqStart pf r { w with paused := update w.paused c rest }))) :
    ∀ {rest : List (Req B)} {w : QState B S}, P w → w.paused c = rest → P (pausedLoop pf c rest w) := by
  intro rest
  induction rest with
  | nil => exact fun h _ => h
  | cons r rest ih =>
    intro w h hhead
    unfold QState.pausedLoop
    split
    · exact h
    · refine ih (hstep h hhead) ?_
      rw [settle_paused, reqStart_paused]
      simp

theorem QInv.fencedLoop {e : Nat} (h : QInv w) (hhead : w.fenced e = rest) :
    QInv (fencedLoop pf e rest w) :=
  fencedLoop_rule (fun h hhead hfence =>
    ((h.beginFenced hhead hfence).progress pf _).settle fun _ => mem_cons_self ..) h hhead

theorem QInv.checkFenced (h : QInv w) (e : Nat) : QInv (checkFenced pf e w) := by
  unfold QState.checkFenced
  split
  · exact h
  · exact h.fencedLoop rfl

theorem QInv.pausedLoop {c : Nat} (h : QInv w) (hhead : w.paused c = rest) :
    QInv (pausedLoop pf c rest w) :=
  pausedLoop_rule (fun h hhead => (h.reqStart pf hhead).1.settle (h.reqStart pf hhead).2) h hhead

theorem QInv.opCb (h : QInv w) (hr : r ∈ w.running) : QInv (opCb pf r w) := by
  unfold QState.opCb
  split
  · have hfree := (h.progress pf r).reqFree hr
    exact (hfree.pausedLoop rfl).checkFenced r.ep
  · exact h.progress pf r

theorem QInv.reqQueue (h : QInv w) (hnew : r ∉ w.arrived) :
    QInv (reqQueue pf r { w with arrived := w.arrived ++ [r] }) := by
  have harrive := h.arrive hnew
  unfold QState.reqQueue
  split
  · exact harrive
  rename_i hgo
  simp only [not_or, Classical.not_not] at hgo
  -- without a pause the request is at once the head of its client's list
  have hhead : (update w.paused r.client (w.paused r.client ++ [r])) r.client = r :: [] := by
    rw [update_self, hgo.1]
    rfl
  obtain ⟨hstart, hrun⟩ := harrive.reqStart pf hhead
  have hsame : ({ w with
      arrived := w.arrived ++ [r]
      paused := update (update w.paused r.client (w.paused r.client ++ [r]))
        r.client [] } : QState B S) = { w with arrived := w.arrived ++ [r] } := by
    rw [update_idem, ← hgo.1, update_eq_self]
  rw [hsame] at hstart hrun
  exact hstart.settle hrun

theorem queue_reach_inv {inner : S} (h : Reach queueStep QEnabled (idle inner) w) : QInv w := by
  refine h.invariant (idle_inv inner) fun w e w' hw he hstep => ?_
  cases e with
  | arrive r pf =>
    cases hstep
    exact hw.reqQueue he
  | callback r pf =>
    cases hstep
    exact hw.opCb he

/-! ## Fences and order -/

structure FencesAndOrder (w : QState B S) : Prop where
  /-- Requests of one client and endpoint start in arrival order. -/
  order : ∀ c e, lane c e (w.starts.map Start.req) <+: lane c e w.arrived
  /-- A fenced request was started when no other request of its endpoint ran. -/
  fence : ∀ s ∈ w.starts, s.req.fence = true → s.running = []
  /-- A request that arrived is in exactly one place. -/
  place : ∀ r ∈ w.arrived, (w.paused r.client).count r + (w.fenced r.ep).count r +
    w.running.count r + w.finished.count r = 1
  nowhere : ∀ r, (r ∈ w.running ∨ r ∈ w.finished ∨ ∃ c, r ∈ w.paused c ∨ r ∈ w.fenced c) → r ∈ w.arrived
  /-- A request waits only with its own client or endpoint. -/
  home : (∀ c, ∀ r ∈ w.paused c, r.client = c) ∧ ∀ e, ∀ r ∈ w.fenced e, r.ep = e
  /-- `oreqs` counts the requests of the endpoint that are started and not finished. -/
  oreqs : ∀ e, w.oreqs e = (w.running.filter fun r => r.ep = e).length

theorem lane_count (r : Req B) (rs : List (Req B)) : (lane r.client r.ep rs).count r = rs.count r :=
  count_filter (by simp)

omit [DecidableEq B] in
theorem mem_lane {r : Req B} {rs : List (Req B)} : r ∈ lane r.client r.ep rs ↔ r ∈ rs := by
  simp [lane]

theorem QInv.fencesAndOrder (h : QInv w) : FencesAndOrder w := by
  refine ⟨fun c e => ?_, h.fences, fun r hr => ?_, fun r hr => ?_, ⟨h.paused, h.fenced⟩, h.oreqs⟩
  · rw [h.order c e, append_assoc]
    exact prefix_append _ _
  · have hone : w.arrived.count r = 1 := count_eq_one_of_mem h.distinct hr
    have horder := congrArg (count r) (h.order r.client r.ep)
    have hstarted := h.started.count_eq r
    simp only [count_append, lane_count] at horder hstarted
    omega
  · have hmem := h.order r.client r.ep
    refine mem_lane.mp ?_
    rw [hmem, mem_append, mem_append, mem_lane, mem_lane, mem_lane]
    rcases hr with hr | hr | ⟨c, hr | hr⟩
    · exact .inl (.inl (h.started.mem_iff.mpr (mem_append_left _ hr)))
    · exact .inl (.inl (h.started.mem_iff.mpr (mem_append_right _ hr)))
    · exact .inr (by rw [h.paused c r hr]; exact hr)
    · exact .inl (.inr (by rw [h.fenced c r hr]; exact hr))

/-- **Fences and order hold**, whatever the progress functions do. -/
theorem fences_and_order {inner : S} (h : Reach queueStep QEnabled (idle inner) w) : FencesAndOrder w :=
  (queue_reach_inv h).fencesAndOrder

/-- A request pauses its client; a fenced one that waits for it starts in its callback. -/
theorem fences_and_order_pair : ∃ w : QState Unit Unit, Reach queueStep QEnabled (idle ()) w ∧
      w.starts.map (fun s => s.req.seq) = [0, 1] ∧ w.finished.map Req.seq = [1, 0] ∧
      FencesAndOrder w := by
  have hreach : Reach queueStep QEnabled (idle () : QState Unit Unit) _ :=
    .of_run (l := [.arrive ⟨0, 0, 0, false, ()⟩ fun _ _ _ => ⟨.inProgress, true, ()⟩,
      .arrive ⟨1, 0, 0, true, ()⟩ fun _ _ _ => ⟨.success, false, ()⟩,
      .callback ⟨0, 0, 0, false, ()⟩ fun _ _ _ => ⟨.success, false, ()⟩]) .init rfl
  exact ⟨_, hreach, by decide, by decide, fences_and_order hreach⟩

/-! ## Rules for invariants of the progress functions -/

structure Started (w : QState B S) : Prop where
  distinct : (w.starts.map Start.req).Nodup
  perm : (w.starts.map Start.req).Perm (w.running ++ w.finished)

def Fresh (r : Req B) (w : QState B S) : Prop := r ∉ w.starts.map Start.req

theorem QInv.count_start (h : QInv w) (r : Req B) :
    (w.starts.map Start.req).count r + (w.fenced r.ep).count r + (w.paused r.client).count r ≤ 1 := by
  have hone := nodup_iff_count_le_one.mp h.distinct r
  have horder := congrArg (count r) (h.order r.client r.ep)
  simp only [count_append, lane_count] at horder
  omega

theorem QInv.toStarted (h : QInv w) : Started w :=
  ⟨nodup_iff_count_le_one.mpr fun r => by have := h.count_start r; omega, h.started⟩

theorem QInv.fresh_fenced (h : QInv w) {e : Nat} (hr : r ∈ w.fenced e) : Fresh r w := by
  have hcount := h.count_start r
  have hpos := count_pos_iff.mpr (h.fenced e r hr ▸ hr)
  exact count_eq_zero.mp (by omega)

theorem QInv.fresh_paused (h : QInv w) {c : Nat} (hr : r ∈ w.paused c) : Fresh r w := by
  have hcount := h.count_start r
  have hpos := count_pos_iff.mpr (h.paused c r hr ▸ hr)
  exact count_eq_zero.mp (by omega)

omit [DecidableEq B] in
theorem Started.lists (h : Started w) (a : List (Req B)) (p f : Nat → List (Req B)) :
    Started { w with arrived := a, paused := p, fenced := f } := ⟨h.distinct, h.perm⟩

omit [DecidableEq B] in
theorem Started.fresh (h : Started w) (hr : Fresh r w) : r ∉ w.running ∧ r ∉ w.finished := by
  unfold Fresh at hr
  rw [h.perm.mem_iff, mem_append, not_or] at hr
  exact hr

structure Keeps (pf : Progress B S) (J : QState B S → Prop) : Prop where
  lists : ∀ {w : QState B S} (a : List (Req B)) (p f : Nat → List (Req B)), J w →
    J { w with arrived := a, paused := p, fenced := f }
  launch : ∀ {w : QState B S} {r : Req B}, J w → Started w → Fresh r w →
    J (settle r (progress pf r (begin r w)))

variable {J : QState B S → Prop}

theorem Keeps.fencedLoop (hJ : Keeps pf J) {e : Nat} (h : QInv w) (hw : J w)
    (hhead : w.fenced e = rest) : J (fencedLoop pf e rest w) := by
  refine (fencedLoop_rule (P := fun w => QInv w ∧ J w) ?_ ⟨h, hw⟩ hhead).2
  rintro r rest w ⟨h, hw⟩ hhead hfence
  have hfresh : Fresh r w := h.fresh_fenced (hhead ▸ mem_cons_self ..)
  have hbegin := h.beginFenced hhead hfence
  exact ⟨(hbegin.progress pf r).settle fun _ => mem_cons_self ..,
    hJ.launch (hJ.lists _ _ _ hw) (h.toStarted.lists _ _ _) hfresh⟩

theorem Keeps.checkFenced (hJ : Keeps pf J) (h : QInv w) (hw : J w) (e : Nat) :
    J (checkFenced pf e w) := by
  unfold QState.checkFenced
  split
  · exact hw
  · exact hJ.fencedLoop h hw rfl

theorem Keeps.reqStart (hJ : Keeps pf J) (hw : J w) (hs : Started w) (hfresh : Fresh r w) :
    J (settle r (reqStart pf r w)) := by
  unfold QState.reqStart
  split
  · exact hJ.lists w.arrived w.paused _ hw
  · exact hJ.launch hw hs hfresh

theorem Keeps.pausedLoop (hJ : Keeps pf J) {c : Nat} (h : QInv w) (hw : J w)
    (hhead : w.paused c = rest) : J (pausedLoop pf c rest w) := by
  refine (pausedLoop_rule (P := fun w => QInv w ∧ J w) ?_ ⟨h, hw⟩ hhead).2
  rintro r rest w ⟨h, hw⟩ hhead
  have hfresh : Fresh r w := h.fresh_paused (hhead ▸ mem_cons_self ..)
  obtain ⟨hstart, hrun⟩ := h.reqStart pf hhead
  exact ⟨hstart.settle hrun,
    hJ.reqStart (hJ.lists w.arrived _ w.fenced hw) (h.toStarted.lists _ _ _) hfresh⟩

theorem Keeps.reqQueue (hJ : Keeps pf J) (h : QInv w) (hw : J w) (hnew : r ∉ w.arrived) :
    J (reqQueue pf r { w with arrived := w.arrived ++ [r] }) := by
  have hfresh : Fresh r w := (h.arrive hnew).fresh_paused (c := r.client) (by simp)
  unfold QState.reqQueue
  split
  · exact hJ.lists (w := w) _ _ w.fenced hw
  · exact hJ.reqStart (hJ.lists (w.arrived ++ [r]) w.paused w.fenced hw) (h.toStarted.lists _ _ _) hfresh

theorem opCb_eq (pf : Progress B S) (r : Req B) (w : QState B S) :
    opCb pf r w = if (progress pf r w).1 = .success then
      checkFenced pf r.ep (checkPaused pf r.client (settle r (progress pf r w)))
      else settle r (progress pf r w) := by
  unfold QState.opCb reqComplete settle
  split <;> rfl

/-- A property that every start keeps holds after a callback if it does once the request itself is
    dealt with. -/
theorem Keeps.opCb (hJ : Keeps pf J) (h : QInv w) (hr : r ∈ w.running)
    (hw : J (settle r (progress pf r w))) : J (opCb pf r w) := by
  rw [opCb_eq]
  split
  · have hsettled : QInv (settle r (progress pf r w)) := (h.progress pf r).settle fun _ => hr
    exact hJ.checkFenced (hsettled.pausedLoop rfl) (hJ.pausedLoop hsettled hw rfl) r.ep
  · exact hw

end Doca.Rdmo
