import Doca.L2Reflector.ExactlyOnce

/-!
# The L2 reflector and the sends in flight

The NIC finishes the posted sends in order, each after any delay; until then it reads the entry of the data
buffer and the segments of the send.

* `Place` — what the NIC reads for a send; `writes` — what the next step of the handler writes.
* `Sender`, `sendStep` — the reflector with the number of sends that are finished.

Principal result: `inFlight_untouched_iff`. Receive buffers are returned as soon as a frame is copied,
so nothing keeps the number of sends below the limit: `frame_overwritten`.
-/

namespace Doca.L2Reflector

open Doca.Lib Function List

inductive Place where
  | slot (offset : Nat)
  | seg (idx : Nat)
  deriving DecidableEq

def Handled.places (h : Handled) : List Place := .slot h.slot :: h.segs.map fun g => .seg g.1

def writes (s : State) : List Place :=
  match s.pc with
  | .copy _ => [.slot (getNextDte s.dev).1.toNat]
  | .swap c => [.slot c.sqData.toNat]
  | .ctrl _ => [.seg (getNextSqe s.dev).1.toNat]
  | .eth _ => [.seg (getNextSqe s.dev).1.toNat]
  | .data _ => [.seg (getNextSqe s.dev).1.toNat]
  | _ => []

def posted (s : State) : Nat :=
  match s.pc with
  | .credit _ => s.handled.length + 1
  | _ => s.handled.length

structure Sender where
  state : State
  finished : Nat

inductive SendEv where
  | reflector (ev : Ev)
  | finish

def sendStep (cfg : Config) (t : Sender) : SendEv → Option Sender
  | .reflector ev => (step cfg t.state ev).map fun s => { t with state := s }
  | .finish => if t.finished < posted t.state then some { t with finished := t.finished + 1 } else none

def Untouched (t : Sender) : Prop :=
  ∀ k h, t.finished ≤ k → t.state.handled[k]? = some h → ∀ p ∈ h.places, p ∉ writes t.state

def place (n : Nat) : Nat → Place
  | 0 => .slot (2048 * (n % 128))
  | j + 1 => .seg ((4 * n + j) % 512)

variable {cfg : Config} {s : State} {t : Sender}

theorem expected_places (frames : List (List UInt8)) (n : Nat) :
    (expected cfg frames n).places = (List.range 4).map (place n) := rfl

theorem swapMacs_below (mem : Nat → UInt8) {off i : Nat} (h : i < off) : swapMacs mem off i = mem i := by
  unfold swapMacs
  generalize range 6 = bytes
  induction bytes generalizing mem with
  | nil => rfl
  | cons b bytes ih =>
    rw [foldl_cons, ih]
    unfold swapByte
    rw [update_of_ne (by omega), update_of_ne (by omega)]

theorem swapMacs_outside (mem : Nat → UInt8) {off i : Nat} (h : i < off ∨ off + 12 ≤ i) :
    swapMacs mem off i = mem i := by
  rcases h with hlt | hge
  · exact swapMacs_below mem hlt
  · obtain ⟨j, rfl⟩ := Nat.exists_eq_add_of_le (Nat.le_of_add_right_le hge)
    rw [swapMacs_apply, if_neg (by omega), if_neg (by omega)]

/-- **A step of the handler writes nothing else**: segments and bytes outside the places stay as they
were. -/
theorem handlerStep_frame {s' : State} (h : Inv cfg s) (hs : handlerStep cfg s = some s') :
    (∀ i, Place.seg i ∉ writes s → s'.sqRing i = s.sqRing i) ∧
      ∀ i, (∀ o, Place.slot o ∈ writes s → i < o ∨ o + 2048 ≤ i) → s'.sqData i = s.sqData i := by
  have hpc := h.pc
  unfold handlerStep at hs
  unfold writes
  split at hs <;> rename_i heq <;> rw [heq] at hpc ⊢ <;> cases hs
  case h_5 c =>
    refine ⟨fun _ _ => rfl, fun i hi => ?_⟩
    obtain ⟨hctx, hlt, rfl⟩ := hpc
    obtain ⟨-, hmax⟩ := h.sizes _ (frameAt_mem hlt)
    have hsz : (cqeOf s.frames s.handled.length).byteCnt.toNat ≤ 2048 := by
      show (UInt32.ofNat _).toNat ≤ 2048
      rw [UInt32.toNat_ofNat']
      omega
    have hout := hi _ (mem_singleton_self _)
    refine if_neg fun hin => ?_
    obtain ⟨hge, hbelow⟩ : (getNextDte s.dev).1.toNat ≤ i ∧ i < (getNextDte s.dev).1.toNat + _ := hin
    have hend := Nat.lt_of_lt_of_le hbelow (Nat.add_le_add_left hsz _)
    omega
  case h_6 c =>
    refine ⟨fun _ _ => rfl, fun i hi => swapMacs_outside _ ?_⟩
    have hout := hi _ (mem_singleton_self _)
    omega
  case h_7 | h_8 | h_9 =>
    refine ⟨fun i hi => update_of_ne (fun he => hi ?_) _ _, fun _ _ => rfl⟩
    exact mem_singleton.2 (congrArg Place.seg he)
  all_goals exact ⟨fun _ _ => rfl, fun _ _ => rfl⟩

theorem writes_place (h : Inv cfg s) (hw : writes s ≠ []) :
    ∃ j < 4, writes s = [place s.handled.length j] := by
  have hpc := h.pc
  unfold writes at hw ⊢
  split <;> rename_i hc <;> try rw [hc] at hpc
  · exact ⟨0, by omega, by rw [(getNextDte_ctx hpc.1).1, place]⟩
  · exact ⟨0, by omega, by rw [hpc.2.sqData, place]⟩
  · exact ⟨1, by omega, by rw [(getNextSqe_ctx hpc.1).1, place, Nat.add_zero]⟩
  · exact ⟨2, by omega, by rw [(getNextSqe_ctx hpc.1).1, place]⟩
  · exact ⟨3, by omega, by rw [(getNextSqe_ctx hpc.1).1, place]⟩
  · simp_all

theorem place_lap {k n i j : Nat} (hi : i < 4) (hj : j < 4) (hlt : k < n) (hlap : n ≤ k + 128) :
    place k i = place n j ↔ i = j ∧ n = k + 128 := by
  obtain _ | i := i <;> obtain _ | j := j
  · simp only [place, Place.slot.injEq, true_and]
    omega
  · simp [place]
  · simp [place]
  · simp only [place, Place.seg.injEq, Nat.add_right_cancel_iff]
    omega

theorem reach_inv (h : Reach (sendStep cfg) (fun _ _ => True) ⟨State.init, 0⟩ t) : Inv cfg t.state := by
  refine h.invariant (I := fun t => Inv cfg t.state) (init_inv cfg) fun t e t' hinv _ hs => ?_
  cases e with
  | reflector ev =>
    obtain ⟨s, hstep, rfl⟩ := Option.map_eq_some_iff.1 (show (step cfg t.state ev).map _ = _ from hs)
    exact step_inv hinv hstep
  | finish =>
    simp only [sendStep, Option.ite_none_right_eq_some, Option.some.injEq] at hs
    exact hs.2 ▸ hinv

theorem handled_get (h : Inv cfg s) {k : Nat} (hk : k < s.handled.length) :
    s.handled[k]? = some (expected cfg s.frames k) := by
  rw [h.calls, getElem?_map, getElem?_range hk, Option.map_some]

theorem touches (h : Inv cfg t.state) (hw : writes t.state ≠ [])
    (hmany : t.finished + 128 ≤ t.state.handled.length) : ¬ Untouched t := by
  obtain ⟨j, hj, hwrites⟩ := writes_place h hw
  intro hno
  refine hno (t.state.handled.length - 128) _ (by omega) (handled_get h (by omega))
    (place (t.state.handled.length - 128) j) ?_ ?_
  · rw [expected_places]
    exact mem_map_of_mem (List.mem_range.2 hj)
  · rw [hwrites, mem_singleton, place_lap hj hj (by omega) (by omega)]
    omega

/-- **A frame that is still being sent is not overwritten** at a step of a run exactly if the step does not
    write, or fewer than 2^7 sends are unfinished. -/
theorem inFlight_untouched_iff (h : Reach (sendStep cfg) (fun _ _ => True) ⟨State.init, 0⟩ t) :
    Untouched t ↔ (writes t.state ≠ [] → t.state.handled.length < t.finished + 128) := by
  have hinv := reach_inv h
  constructor
  · intro hno hw
    by_contra hmany
    exact touches hinv hw (Nat.le_of_not_lt hmany) hno
  · intro hfew k c hk hc p hp hmem
    have hw : writes t.state ≠ [] := ne_nil_of_mem hmem
    obtain ⟨j, hj, hwrites⟩ := writes_place hinv hw
    have hlt := (List.getElem?_eq_some_iff.1 hc).1
    cases (handled_get hinv hlt).symm.trans hc
    rw [expected_places] at hp
    obtain ⟨i, hi, rfl⟩ := List.mem_map.1 hp
    have hroom := hfew hw
    rw [hwrites, mem_singleton, place_lap (List.mem_range.1 hi) hj hlt (by omega)] at hmem
    omega

/-- What the NIC reads of an unfinished send is then as it was before the step. -/
theorem Untouched.kept {s' : State} {k : Nat} {c : Handled}
    (h : Reach (sendStep cfg) (fun _ _ => True) ⟨State.init, 0⟩ t) (hno : Untouched t)
    (hs : handlerStep cfg t.state = some s') (hk : t.finished ≤ k) (hc : t.state.handled[k]? = some c) :
    (∀ g ∈ c.segs, s'.sqRing g.1 = t.state.sqRing g.1) ∧
      ∀ i < 2048, s'.sqData (c.slot + i) = t.state.sqData (c.slot + i) := by
  have hinv := reach_inv h
  obtain ⟨hring, hdata⟩ := handlerStep_frame hinv hs
  have hplaces := hno k c hk hc
  refine ⟨fun g hg => hring _ (hplaces _ (mem_cons_of_mem _ (mem_map_of_mem hg))), fun i hi => ?_⟩
  refine hdata _ fun o ho => ?_
  -- the slots do not overlap, so another slot is outside the one of the send
  obtain ⟨j, hj, hwrites⟩ := writes_place hinv (ne_nil_of_mem ho)
  rw [hwrites, mem_singleton] at ho
  cases (handled_get hinv (List.getElem?_eq_some_iff.1 hc).1).symm.trans hc
  have hne := hplaces _ mem_cons_self
  rw [hwrites, mem_singleton, ← ho] at hne
  obtain _ | j := j
  · cases ho
    have hoff : (2048 * (k % 128) : Nat) ≠ 2048 * (t.state.handled.length % 128) :=
      fun he => hne (congrArg Place.slot he)
    show 2048 * (k % 128) + i < _ ∨ _ ≤ 2048 * (k % 128) + i
    omega
  · cases ho

/-! ### A run without a finished send -/

section

variable (cfg)

def Unfinished (s : State) : Prop := Reach (sendStep cfg) (fun _ _ => True) ⟨State.init, 0⟩ ⟨s, 0⟩

def Drained (n : Nat) : Prop :=
  ∃ s, Unfinished cfg s ∧ s.pc = .check ∧ s.frames.length = n ∧ s.handled.length = n

end

theorem Unfinished.next {s s' : State} {e : Ev} (h : Unfinished cfg s) (hs : step cfg s e = some s') :
    Unfinished cfg s' :=
  h.tail (e := .reflector e) trivial (congrArg (Option.map (Sender.mk · 0)) hs)

theorem Unfinished.sees (h : Unfinished cfg s) (hpc : s.pc = .check)
    (hlt : s.handled.length < s.frames.length) :
    Unfinished cfg { s with seen := s.frames.length, pc := .read } := by
  have hinv : Inv cfg s := reach_inv h
  have hctx := hinv.pc
  rw [hpc] at hctx
  refine h.next (e := .run) ?_
  simp only [step, handlerStep, hpc]
  rw [hctx.cqe, hctx.owner, if_pos ((check_new hinv).2 hlt)]

theorem Drained.read {n : Nat} (h : Drained cfg n) :
    ∃ s : State, Unfinished cfg { s with pc := .read } ∧ s.frames.length = n + 1 ∧ s.handled.length = n := by
  obtain ⟨s, hr, hpc, hframes, hhandled⟩ := h
  have hcredits : s.credits = s.handled.length := (reach_inv hr).credits
  have hroom : s.frames.length < 128 + s.credits ∧ 14 ≤ sampleFrame.length ∧ sampleFrame.length ≤ 2048 :=
    ⟨by omega, by decide, by decide⟩
  have hlen : (s.frames ++ [sampleFrame]).length = n + 1 := by rw [length_append, hframes]; rfl
  have hnext := hr.next (e := .receive sampleFrame) (if_pos hroom)
  refine ⟨.mk _ _ _ _ _ .check _ _ _ _ _, hnext.sees hpc ?_, hlen, hhandled⟩
  rw [hlen]
  exact Nat.lt_succ_of_le hhandled.le

theorem call_runs (cfg : Config) (s : State) :
    ∃ s', run (sendStep cfg) ⟨{ s with pc := .read }, 0⟩ (List.replicate 10 (.reflector .run)) =
      some ⟨s', 0⟩ ∧ s'.pc = .check ∧ s'.frames = s.frames ∧ s'.handled.length = s.handled.length + 1 :=
  ⟨_, rfl, rfl, rfl, length_append⟩

theorem drained (cfg : Config) (n : Nat) : Drained cfg n := by
  induction n with
  | zero =>
    exact ⟨_, ((Unfinished.next .init (e := .deviceInit) rfl).next (e := .activate) rfl).next
      (e := .run) rfl, rfl, rfl, rfl⟩
  | succ n ih =>
    obtain ⟨s, hr, hframes, hhandled⟩ := ih.read
    obtain ⟨s', hrun, hpc, hframes', hhandled'⟩ := call_runs cfg s
    exact ⟨s', hr.run (fun _ _ => trivial) hrun, hpc, by rw [hframes', hframes], by rw [hhandled', hhandled]⟩

/-- The second frame is copied while the first one is being sent. -/
theorem second_frame_copied : ∃ t, Reach (sendStep ⟨5, 9, 4096⟩) (fun _ _ => True) ⟨State.init, 0⟩ t ∧
    writes t.state ≠ [] ∧ Untouched t := by
  obtain ⟨s, hr, -, hhandled⟩ := (drained ⟨5, 9, 4096⟩ 1).read
  have hr := hr.next (e := .run) rfl
  exact ⟨_, hr, cons_ne_nil _ _, (inFlight_untouched_iff hr).2 fun _ => by simp [hhandled]⟩

/-- The 129th frame is copied over the first one, which is not sent yet. -/
theorem frame_overwritten : ∃ t, Reach (sendStep ⟨5, 9, 4096⟩) (fun _ _ => True) ⟨State.init, 0⟩ t ∧
    ¬ Untouched t := by
  obtain ⟨s, hr, -, hhandled⟩ := (drained ⟨5, 9, 4096⟩ 128).read
  have hr := hr.next (e := .run) rfl
  exact ⟨_, hr, touches (reach_inv hr) (cons_ne_nil _ _) (by simp [hhandled])⟩

end Doca.L2Reflector
