import Doca.DmaCopy.Success

/-!
# DMA copy: a failing DPU tells the host

Runs in which every send succeeds, possibly after blocking.

* `tells` — the steps of the DPU that do not fail in silence: the allocation of its buffer and the
  creation of the memory map succeed, and so does the release of resources after a complete copy.
* `Talk` — what the DPU has sent in front of each of its calls: no failure status as long as it goes
  on, and one at the end when it has failed.

Principal results: `failures_told`, and `failures_silent` for the other exits.
-/

namespace Doca.DmaCopy

open Doca.Lib

variable {c : Setup} {s s' : State}

/-! ## Conditions on runs -/

def sendsWork : CopyEvent → Bool
  | .host (.send r) | .dpu (.send r) => r = .again || r = .success
  | _ => true

def tells (s : State) (e : CopyEvent) : Bool :=
  match s.dpu, e with
  | .alloc, .dpu (.alloc env) => (memoryAllocAndPopulate env).isOk
  | .createMmap, .dpu (.call r) => r = .success
  | .leaving r _, .dpu (.release tmp) => r ≠ .success || propagate r tmp = .success
  | _, _ => true

def HostPc.running : HostPc → Bool
  | .leaving _ _ | .returned _ => false
  | _ => true

def FailurePending (s : State) : Prop :=
  ∃ pre, s.toHost.sent.drop s.toHost.taken = pre ++ [statusMsg false] ∧ ∀ m ∈ pre, m ≠ statusMsg false

/-! ## What the DPU has sent -/

def Failure (m : Msg) : Prop := m = statusMsg false

def Talk (s : State) : Prop :=
  match s.dpu with
  | .leaving r _ | .returned r =>
    (r = .success → s.toHost.sent.length = 5 ∧ s.toHost.AllGood Failure) ∧
      (r ≠ .success → 1 ≤ s.toDpu.taken → s.toHost.EndsBad Failure)
  | .failing r _ => r ≠ .success ∧ s.toHost.AllGood Failure
  | _ => s.toHost.AllGood Failure

theorem HostFrame.talk (hf : HostFrame c s s') (h : Talk s) : Talk s' := by
  have hgood : s.toHost.AllGood Failure → s'.toHost.AllGood Failure := fun h m hm => h m (hf.sent ▸ hm)
  have hbad : s.toHost.EndsBad Failure → s'.toHost.EndsBad Failure := fun h => by
    obtain ⟨pre, m, hsent, hm⟩ := h
    exact ⟨pre, m, hf.sent.trans hsent, hm⟩
  unfold Talk at h ⊢
  rw [hf.dpu]
  cases hpc : s.dpu with
  | leaving r n | returned r =>
    rw [hpc] at h
    refine ⟨fun hr => ?_, fun hr htaken => hbad (h.2 hr (hf.taken ▸ htaken))⟩
    exact ⟨hf.sent ▸ (h.1 hr).1, hgood (h.1 hr).2⟩
  | failing r n =>
    rw [hpc] at h
    exact ⟨h.1, hgood h.2⟩
  | allocateResources | listen | recvDirection | tooBig | sendDirection | alloc | recvDescriptor
  | ackDescriptor | createMmap | recvAddress | ackAddress | recvLength | ackLength | remoteBuf
  | localBuf | fill | submit | save | sendFinal =>
    rw [hpc] at h
    exact hgood h

theorem propagate_of_error {r : DocaError} (hr : r ≠ .success) (tmp : List DocaError) :
    propagate r tmp = r := by
  induction tmp with
  | nil => rfl
  | cons t tmp ih =>
    show propagate (if r = .success then t else r) tmp = r
    rw [if_neg hr]
    exact ih

theorem talk_leaving {r : DocaError} (hpc : s.dpu = .returned r ∨ ∃ n, s.dpu = .leaving r n)
    (hr : r ≠ .success) (h : 1 ≤ s.toDpu.taken → s.toHost.EndsBad Failure) : Talk s := by
  unfold Talk
  rcases hpc with hpc | ⟨n, hpc⟩ <;> rw [hpc] <;> exact ⟨fun heq => absurd heq hr, fun _ => h⟩

theorem talk_send {m : Msg} {next : DpuPc} {out : DocaError → DpuPc} {r : DocaError} (h : Talk s)
    (hr : r = .again ∨ r = .success)
    (hnext : Talk { s with toHost := s.toHost.send m, dpu := next }) : Talk (dpuSend s r m next out) := by
  unfold dpuSend
  rcases hr with rfl | rfl
  · exact h
  · exact hnext

theorem talk_recv {r : DocaError} {calls : Nat} {next : State → Msg → State} (h : Talk s)
    (hgood : s.toHost.AllGood Failure) (hstep : dpuRecv s r calls next = some s')
    (hnext : ∀ m, Talk (next { s with toDpu := s.toDpu.take } m)) : Talk s' := by
  unfold dpuRecv at hstep
  split at hstep
  · cases hstep
    exact h
  split at hstep
  · rename_i hr
    cases hstep
    exact ⟨hr, hgood⟩
  split at hstep
  · cases hstep
  · cases hstep
    exact hnext _

theorem not_failure_true : ¬ Failure (statusMsg true) := by
  unfold Failure
  decide

theorem not_failure_direction (b : Bool) (size : UInt64) : ¬ Failure (directionMsg b size) :=
  fun h => Kind.noConfusion (congrArg Msg.kind h)

theorem runTask_toHost (c : Setup) (env : SubmitEnv) (s : State) :
    (runTask c env s).toHost = s.toHost := by
  unfold runTask
  dsimp only
  split <;> rfl

theorem talk_failing {r : DocaError} {calls : Nat} {next : DpuPc} (hgood : s.toHost.AllGood Failure)
    (hnext : Talk { s with dpu := next }) :
    Talk { s with dpu := if r ≠ .success then .failing r calls else next } := by
  split
  · rename_i hr
    exact ⟨hr, hgood⟩
  · exact hnext

theorem talk_submit (hgood : s.toHost.AllGood Failure) (env : SubmitEnv) :
    Talk (if env.before ≠ .success then { s with dpu := .failing env.before 5 }
      else
        let s := runTask c env s
        if env.task ≠ .success then { s with dpu := .failing env.task 5 }
        else { s with dpu := if c.dpuFound then .sendFinal else .save }) := by
  have hrun : (runTask c env s).toHost.AllGood Failure := by
    rw [runTask_toHost]
    exact hgood
  dsimp only
  split
  · rename_i hr
    exact ⟨hr, hgood⟩
  split
  · rename_i hr
    exact ⟨hr, hrun⟩
  · split <;> exact hrun

theorem talk_early {r : DocaError} {out next : DpuPc} (hstart : s.toDpu.taken = 0)
    (hout : out = .returned r ∨ ∃ n, out = .leaving r n) (hnext : Talk { s with dpu := next }) :
    Talk { s with dpu := if r ≠ .success then out else next } := by
  split
  · rename_i hr
    exact talk_leaving hout hr fun h1 => absurd h1 (by show ¬ 1 ≤ s.toDpu.taken; rw [hstart]; decide)
  · exact hnext

theorem dpuStep_talk (hinv : Inv c s) (h : Talk s) {x : DpuCall} (hsend : sendsWork (.dpu x) = true)
    (htells : tells s (.dpu x) = true) (hstep : dpuStep c s x = some s') : Talk s' := by
  have hok := hinv.dpu
  have htalk := h
  unfold DpuOk at hok
  unfold Talk at htalk
  unfold dpuStep at hstep
  unfold tells at htells
  have hworks : ∀ {r : DocaError}, sendsWork (.dpu (.send r)) = true → r = .again ∨ r = .success := by
    intro r hr
    simpa [sendsWork] using hr
  generalize s.dpu = pc at hok htalk hstep htells
  cases pc <;> cases x <;> try cases hstep
  case allocateResources.allocateResources allocate maxBufSize ctxStart =>
    have htaken := DpuStart.taken hok
    refine talk_early htaken (.inl rfl) (talk_early htaken (.inr ⟨1, rfl⟩) ?_)
    exact talk_early htaken (.inr ⟨1, rfl⟩) htalk
  case listen.call r => exact talk_early (DpuStart.taken hok) (.inr ⟨2, rfl⟩) htalk
  case recvDirection.recv r =>
    refine talk_recv h htalk hstep fun m => ?_
    dsimp only
    split
    · exact ⟨nofun, htalk⟩
    all_goals exact htalk
  case tooBig.send r =>
    refine talk_send h (hworks hsend) (talk_leaving (.inr ⟨2, rfl⟩) nofun fun _ => ?_)
    exact Channel.AllGood.send_bad htalk rfl
  case sendDirection.send r =>
    refine talk_send h (hworks hsend) (Channel.AllGood.send htalk ?_)
    split <;> exact not_failure_direction _ _
  case alloc.alloc env =>
    dsimp only at htells
    cases halloc : memoryAllocAndPopulate env with
    | error e =>
      rw [halloc] at htells
      cases htells
    | ok buffer => exact htalk
  case recvDescriptor.recv r => exact talk_recv h htalk hstep fun m => htalk
  case ackDescriptor.send r | ackAddress.send r | ackLength.send r =>
    exact talk_send h (hworks hsend) (Channel.AllGood.send htalk not_failure_true)
  case createMmap.call r =>
    rw [if_neg (not_not.mpr (of_decide_eq_true htells))]
    exact htalk
  case recvAddress.recv r | recvLength.recv r =>
    refine talk_recv h htalk hstep fun m => ?_
    dsimp only
    split
    · exact ⟨nofun, htalk⟩
    · exact htalk
  case remoteBuf.call r => exact talk_failing htalk htalk
  case localBuf.call r =>
    refine talk_failing htalk ?_
    split <;> exact htalk
  case fill.fill env => exact @talk_failing { s with dpuMem := _ } _ _ _ htalk htalk
  case submit.submit env => exact talk_submit htalk env
  case save.save env => exact @talk_failing { s with dpuFile := _, lost := _ } _ _ _ htalk htalk
  case sendFinal.send r =>
    refine talk_send h (hworks hsend) ⟨fun _ => ⟨?_, ?_⟩, fun hne => absurd rfl hne⟩
    · rw [Channel.send_length, hok.2.1]
    · exact Channel.AllGood.send htalk not_failure_true
  case failing.send result calls r =>
    refine talk_send h (hworks hsend) (talk_leaving (.inr ⟨calls, rfl⟩) htalk.1 fun _ => ?_)
    exact Channel.AllGood.send_bad htalk.2 rfl
  case leaving.release result calls tmp =>
    dsimp only at hstep
    split at hstep
    · cases hstep
      by_cases hr : result = .success
      · have hall : propagate result tmp = .success := by simpa [hr] using htells
        refine ⟨fun _ => htalk.1 hr, fun hne => absurd hall hne⟩
      · rw [propagate_of_error hr]
        exact htalk
    · cases hstep

/-! ## Runs -/

theorem talk_reach (h : Reach (copyStep c) (fun s e => sendsWork e = true ∧ tells s e = true)
    (State.init c) s) : Inv c s ∧ Talk s := by
  refine Reach.invariant (I := fun s => Inv c s ∧ Talk s) ⟨Inv.init c, ?_⟩ (fun s e s' hs hG hstep => ?_) h
  · intro m hm
    cases hm
  · refine ⟨inv_step hs.1 hstep, ?_⟩
    cases e with
    | host x => exact (hostStep_ok hs.1 hstep).frame.talk hs.2
    | dpu x => exact dpuStep_talk hs.1 hs.2 hG.1 hG.2 hstep

theorem hostAt_of_running (h : Inv c s) (hrun : s.host.running = true) : ∃ n k, HostAt c s n k := by
  have hok := h.host
  unfold HostOk at hok
  cases hpc : s.host with
  | connect | validate | sendDirection | recvDirection | prepare | alloc | exportPci
  | sendDescriptor d | waitDescriptor | waitAddress | sendLength | waitLength | waitFinal =>
    rw [hpc] at hok
    exact ⟨_, _, hok⟩
  | fill | sendAddress | save =>
    rw [hpc] at hok
    exact ⟨_, _, hok.1⟩
  | leaving r n | returned r =>
    rw [hpc] at hrun
    cases hrun

theorem hostAt_of_expects (h : Inv c s) (hexp : s.host.expects ≠ none) :
    ∃ n k, HostAt c s n k ∧ k ≤ 4 := by
  have hok := h.host
  unfold HostOk at hok
  cases hpc : s.host with
  | recvDirection | waitDescriptor | waitAddress | waitLength | waitFinal =>
    rw [hpc] at hok
    exact ⟨_, _, hok, by decide⟩
  | connect | validate | sendDirection | prepare | alloc | exportPci | sendDescriptor d | fill
  | sendAddress | sendLength | save | leaving r n | returned r =>
    rw [hpc] at hexp
    exact absurd rfl hexp

theorem HostAt.failurePending {n k : Nat} (hat : HostAt c s n k)
    (htaken : s.toHost.taken ≤ s.toHost.sent.length) (h : s.toHost.EndsBad Failure) :
    FailurePending s := by
  have hlt : s.toHost.taken < s.toHost.sent.length :=
    h.pending htaken fun j hj m hm => hat.saw j (hat.taken ▸ hj) m hm
  obtain ⟨pre, m, hsent, rfl, hpre⟩ := h
  refine ⟨pre.drop s.toHost.taken, ?_, fun m hm => hpre m (List.mem_of_mem_drop hm)⟩
  rw [hsent, List.length_append, List.length_singleton] at hlt
  rw [hsent]
  exact List.drop_append_of_le_length (Nat.le_of_lt_succ hlt)

/-- **A failing DPU tells the host**: its last message is a failure status, and no host waits for a
    message that does not come. -/
theorem failures_told (h : Reach (copyStep c) (fun s e => sendsWork e = true ∧ tells s e = true)
    (State.init c) s) (hreceived : 1 ≤ s.toDpu.taken) {r : DocaError} (hdpu : s.dpu = .returned r) :
    (r ≠ .success → s.toHost.EndsBad Failure ∧ (s.host.running = true → FailurePending s)) ∧
      (s.host.expects ≠ none → s.toHost.next? ≠ none) := by
  obtain ⟨hinv, htalk⟩ := talk_reach h
  unfold Talk at htalk
  rw [hdpu] at htalk
  refine ⟨fun hr => ?_, fun hexp => ?_⟩
  · have hbad := htalk.2 hr hreceived
    refine ⟨hbad, fun hrun => ?_⟩
    obtain ⟨n, k, hat⟩ := hostAt_of_running hinv hrun
    exact hat.failurePending hinv.hostTaken hbad
  · obtain ⟨n, k, hat, hk⟩ := hostAt_of_expects hinv hexp
    have hlt : s.toHost.taken < s.toHost.sent.length := by
      by_cases hr : r = .success
      · rw [(htalk.1 hr).1, hat.taken]
        omega
      · exact (htalk.2 hr hreceived).pending hinv.hostTaken fun j hj m hm =>
          hat.saw j (hat.taken ▸ hj) m hm
    rw [Channel.next?, List.getElem?_eq_getElem hlt]
    exact Option.some_ne_none _

/-- The DPU cannot get the buffer of the host: it says so behind its acknowledgement of the length, and
    the host has yet to take both. -/
theorem failures_told_remoteBuf : ∃ s : State, s.dpu = .returned .driver ∧ s.host = .waitLength ∧
    FailurePending s ∧ s.toHost.next? ≠ none := by
  have hreach : Reach (copyStep twoBytes) (fun s e => sendsWork e = true ∧ tells s e = true)
      (State.init twoBytes) _ := .of_run (l := (plainRun none).take 26 ++ [.dpu (.call .driver),
    .dpu (.send .success), .dpu (.release [.success, .success, .success])]) .init rfl
  obtain ⟨hfailed, hwaits⟩ := failures_told hreach (by decide) rfl
  exact ⟨_, rfl, rfl, (hfailed nofun).2 rfl, hwaits (Option.some_ne_none _)⟩

/-- **Three exits of the DPU are silent**: two leave the host waiting for ever, one returns an error
    after a success status. -/
theorem failures_silent :
    (∃ s, run (guarded (copyStep twoBytes) fun _ e => sendsWork e = true) (State.init twoBytes)
      ((plainRun none).take 13 ++ [.dpu (.alloc ⟨.success, none, .success, .success⟩),
        .dpu (.release [.success, .success])]) = some s ∧ 1 ≤ s.toDpu.taken ∧
      s.dpu = .returned .noMemory ∧ s.host = .waitDescriptor ∧ s.toHost.next? = none) ∧
    (∃ s, run (guarded (copyStep twoBytes) fun _ e => sendsWork e = true) (State.init twoBytes)
      ((plainRun none).take 16 ++ [.dpu (.call .driver), .dpu (.release [.success, .success]),
        .host (.recv .success), .host (.fill ⟨true, 2⟩), .host (.send .success)]) = some s ∧
      1 ≤ s.toDpu.taken ∧ s.dpu = .returned .driver ∧ s.host = .waitAddress ∧ s.toHost.next? = none) ∧
    ∃ s, run (guarded (copyStep twoBytes) fun _ e => sendsWork e = true) (State.init twoBytes)
      ((plainRun none).take 32 ++
        [.dpu (.release [.driver, .success, .success, .success, .success])]) = some s ∧
      1 ≤ s.toDpu.taken ∧ s.dpu = .returned .driver ∧ statusMsg false ∉ s.toHost.sent := by
  refine ⟨⟨_, rfl, by decide, rfl, rfl, rfl⟩, ⟨_, rfl, by decide, rfl, rfl, rfl⟩, ⟨_, rfl, by decide, rfl, ?_⟩⟩
  decide

end Doca.DmaCopy
