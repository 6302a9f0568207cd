import Doca.AllReduce.Invariant

/-!
# All-reduce between non-offloaded clients

`N` clients, each with all others as peers, for any number of operation ids in any interleaving.

* `client_result_total` — the result is right if the arrivals are `Prompt`.
* `client_result_wrong` — without that condition it need not: `_allreduce_gather_callback` reduces
  the received vectors at every completion after the last descriptor, also into and from buffers
  whose data has not arrived.
-/

namespace Doca.AllReduce

open Doca.Lib

variable {N w : Nat} {S : Setup N w} {s : State N w} {i j : Fin N}

structure NoClients (clientRecvs : Nat → RecvState Unit) (replies : Nat → SendState w)
    (replyPosts : Nat → Nat) : Prop where
  recvs : ∀ c, clientRecvs c = .idle
  replies : ∀ c, replies c = .idle
  posts : ∀ c, replyPosts c = 0

def clientInv (S : Setup N w) (hrole : S.role = .client) : RoleInv S where
  untouched _ nd := nd.result = none ∧ NoClients nd.clientRecvs nd.replies nd.replyPosts
  opened _ v := v.result = none ∧ NoClients v.clientRecvs v.replies v.replyPosts ∧
    v.allreduceRequestsList = [] ∧ (v.scattered = false → v.resultVector = none)
  closed _ nd := NoClients nd.clientRecvs nd.replies nd.replyPosts ∧
    ∃ b, nd.result = some b ∧ AgreeOn S.length b S.total
  allocate := by
    rintro i nd - ⟨hres, hno⟩
    exact ⟨hres, hno, rfl, fun _ => rfl⟩
  finish := by
    rintro i nd sr v b replyMode - ⟨-, hno, hreq, -⟩ - hview - hb
    simp only [view, LocalView.mk.injEq] at hview
    obtain ⟨-, hvec, hlist, -, -, hcr, hrep, hposts, -, -⟩ := hview
    refine ⟨{ nd with
      entry := none
      result := sr.resultVector
      removals := nd.removals + 1 }, ?_, ⟨?_, b, hvec, hb⟩, rfl, rfl, rfl⟩
    · simp [finishOperation, Setup.config, hrole, hlist, hreq]
    · simp only [hcr, hrep, hposts]
      exact hno

variable {hrole : S.role = .client}

theorem client_init (hrole : S.role = .client) : Inv (clientInv S hrole) (State.init N w) where
  node := fun _ => .untouched ⟨rfl, rfl, rfl, rfl⟩ ⟨rfl, fun _ => rfl, fun _ => rfl, fun _ => rfl⟩
  link := fun _ _ => Link.idle nofun

theorem NodeOk.noClients {nd : Node (Fin N) w} (h : NodeOk (clientInv S hrole) i nd) :
    NoClients nd.clientRecvs nd.replies nd.replyPosts := by
  cases h with
  | untouched _ hr => exact hr.2
  | opened _ hv => exact hv.2.1
  | closed _ hc => exact hc.1

theorem Inv.submit (h : Inv (clientInv S hrole) s) {env : Env N}
    (hen : enabled S s (.submit i env) = true) :
    ∃ nd, handle S s (.submit i env) = some nd ∧ Inv (clientInv S hrole) (Function.update s i nd) := by
  simp only [enabled, Bool.and_eq_true, Bool.not_eq_true'] at hen
  obtain ⟨-, hsc⟩ := hen
  have hcontr : AgreeOn S.length (S.vector i) (S.contribution i) := by
    simp only [Setup.contribution, hrole]
    exact AgreeOn.refl _ _
  cases h.node i with
  | untouched hu hr =>
    have hscatter := h.scatter hsc (Open.allocate hu (some (S.vector i))) hu.scattered rfl rfl
      hcontr ⟨hr.1, hr.2, rfl, by simp⟩ env
    obtain ⟨nd, hrun, hinv⟩ := hscatter
    refine ⟨nd, ?_, hinv⟩
    rw [← hrun]
    simp only [handle, allreduceSubmit, superRequestGet, hu.entry]
    rfl
  | @opened arr sr ho hv =>
    obtain ⟨hres, hno, hreq, hnone⟩ := hv
    have hopen : Open S i 0 [] arr { sr with
          resultVector := some (S.vector i)
          resultVectorOwner := false
          resultVectorSize := S.length }
        { s i with entry := some { sr with
          resultVector := some (S.vector i)
          resultVectorOwner := false
          resultVectorSize := S.length } } :=
      ⟨rfl, rfl, ho.ops, ho.live, ho.peer, fun _ => ⟨_, rfl, hcontr⟩, ho.sends, ho.recvs⟩
    obtain ⟨nd, hrun, hinv⟩ := h.scatter hsc hopen hsc rfl rfl hcontr ⟨hres, hno, hreq, by simp⟩ env
    refine ⟨nd, ?_, hinv⟩
    have hrv : sr.resultVector = none := hnone hsc
    rw [← hrun]
    simp only [handle, allreduceSubmit, superRequestGet, ho.entry, hrv]
  | closed hc _ => rw [hc.scattered] at hsc; cases hsc

/-- **No callback fails**, and every one keeps the invariant. -/
theorem clientStep_ok (h : Inv (clientInv S hrole) s) {ev : Event N w}
    (hen : enabled S s ev = true) (hprompt : Prompt s ev) :
    ∃ s', step S s ev = some s' ∧ Inv (clientInv S hrole) s' := by
  have hok : ∃ nd, handle S s ev = some nd ∧ Inv (clientInv S hrole) (Function.update s ev.node nd) := by
    cases ev with
    | submit i env => exact h.submit hen
    | arrive i j vector env => exact h.arrive hen hprompt
    | data i j env => exact h.data hen
    | sent i j env => exact h.sent hen
    | clientArrive i c eager env => simp [enabled, hrole] at hen
    | clientData i c env => simp [enabled, (h.node i).noClients.recvs c] at hen
    | replyArrive i c => simp [enabled, (h.node i).noClients.posts c] at hen
    | replySent i c =>
      simp [enabled, (h.node i).noClients.replies c, SendState.mayComplete] at hen
  obtain ⟨nd, hhandle, hinv⟩ := hok
  exact ⟨_, by simp only [step, hen, if_true, hhandle, Option.map_some], hinv⟩

theorem client_reach_inv {setup : Nat → Setup N w} (hrole : ∀ id, (setup id).role = .client)
    {s : Nat → State N w}
    (h : Reach (wholeStep setup) (fun s e => Prompt (s e.1) e.2) (fun _ => State.init N w) s)
    (id : Nat) : Inv (clientInv (setup id) (hrole id)) (s id) := by
  have hc := Reach.component (G := fun _ => Prompt) h id
  refine hc.invariant (client_init (hrole id)) fun s e s' hinv hp hs => ?_
  have hen : enabled (setup id) s e = true := by
    unfold step at hs
    split at hs
    · assumption
    · cases hs
  obtain ⟨s'', hs'', hinv'⟩ := clientStep_ok hinv hen hp
  rw [hs] at hs''
  cases hs''
  exact hinv'

/-- **All-reduce between clients is correct in every run in which the last descriptor arrives after the
    data of the others.** -/
theorem client_result_total {setup : Nat → Setup N w} (hrole : ∀ id, (setup id).role = .client)
    {s : Nat → State N w}
    (h : Reach (wholeStep setup) (fun s e => Prompt (s e.1) e.2) (fun _ => State.init N w) s)
    (id : Nat) (i : Fin N) (b : Buf w) (hb : (s id i).result = some b) :
    AgreeOn (setup id).length b (reduction (setup id).operation Finset.univ (setup id).vector) := by
  have htotal : (setup id).total = reduction (setup id).operation Finset.univ (setup id).vector := by
    have : (setup id).contribution = (setup id).vector := by
      funext j
      simp only [Setup.contribution, hrole id]
    rw [Setup.total, this]
  rw [← htotal]
  cases (client_reach_inv hrole h id).node i with
  | untouched _ hr => rw [hr.1] at hb; cases hb
  | opened _ hv => rw [show (s id i).result = none from hv.1] at hb; cases hb
  | closed _ hc =>
    obtain ⟨b', hb', hagree⟩ := hc.2
    rw [hb] at hb'
    cases hb'
    exact hagree

def byteClients (N : Nat) (operation : Operation) (v : Fin N → BitVec 8) : Setup N 8 where
  role := .client
  operation := operation
  length := 1
  vector := fun i _ => v i
  numClients := fun _ => 0
  clientVector := fun _ _ _ => 0

def rndvEnv (N : Nat) : Env N := ⟨fun _ => .rndv, fun _ => .rndv⟩

def pairRun : List (Nat × Event 2 8) :=
  [(0, .submit 0 (rndvEnv 2)), (0, .arrive 1 0 (fun _ => 9) (rndvEnv 2)),
    (0, .submit 1 (rndvEnv 2)), (0, .data 1 0 (rndvEnv 2)), (0, .sent 0 1 (rndvEnv 2)),
    (0, .arrive 0 1 (fun _ => 9) (rndvEnv 2)), (0, .data 0 1 (rndvEnv 2))]

theorem client_result_total_pair :
    ∃ s b, Reach (wholeStep fun _ => byteClients 2 .sum fun i => if i = 0 then 3 else 4)
        (fun s e => Prompt (s e.1) e.2) (fun _ => State.init 2 8) s ∧
      (s 0 0).result = some b ∧
      AgreeOn 1 b (reduction .sum Finset.univ fun i : Fin 2 => fun _ => if i = 0 then 3 else 4) := by
  have hrun : ((run (wholeStep fun _ => byteClients 2 .sum fun i => if i = 0 then 3 else 4)
      (fun _ => State.init 2 8) pairRun).bind fun s => (s 0 0).result).isSome = true := by decide
  obtain ⟨b, hb⟩ := Option.isSome_iff_exists.1 hrun
  obtain ⟨s, hs, hb⟩ := Option.bind_eq_some_iff.1 hb
  have hreach := Reach.init.run
    (G := fun (s : Nat → State 2 8) (e : Nat × Event 2 8) => Prompt (s e.1) e.2)
    (fun s e => prompt_of_le_two (Nat.le_refl 2) (s e.1) e.2) hs
  exact ⟨s, b, hreach, hb, client_result_total (fun _ => rfl) hreach 0 0 b hb⟩

def tripleRun : List (Nat × Event 3 8) :=
  [(0, .submit 0 (rndvEnv 3)), (0, .submit 1 (rndvEnv 3)), (0, .submit 2 (rndvEnv 3)),
    (0, .arrive 0 1 (fun _ => 0) (rndvEnv 3)), (0, .arrive 0 2 (fun _ => 0) (rndvEnv 3)),
    (0, .data 0 1 (rndvEnv 3)), (0, .data 0 2 (rndvEnv 3)),
    (0, .arrive 1 0 (fun _ => 0) (rndvEnv 3)), (0, .data 1 0 (rndvEnv 3)),
    (0, .sent 0 1 (rndvEnv 3)),
    (0, .arrive 2 0 (fun _ => 0) (rndvEnv 3)), (0, .data 2 0 (rndvEnv 3)),
    (0, .sent 0 2 (rndvEnv 3))]

/-- The product of three ones comes out as 0: the vector of peer 1 is multiplied with the empty
    buffer of peer 2. -/
theorem client_result_wrong :
    ∃ s b, Reach (wholeStep fun _ => byteClients 3 .prod fun _ => 1) (fun _ _ => True)
        (fun _ => State.init 3 8) s ∧
      (s 0 0).result = some b ∧ b 0 = 0 ∧
      reduction .prod Finset.univ (fun _ : Fin 3 => fun _ => (1 : BitVec 8)) 0 = 1 := by
  have hrun : ((run (wholeStep fun _ => byteClients 3 .prod fun _ => 1)
      (fun _ => State.init 3 8) tripleRun).bind fun s => (s 0 0).result.map fun b => b 0) =
      some 0 := by decide
  obtain ⟨s, hs, hb⟩ := Option.bind_eq_some_iff.1 hrun
  obtain ⟨b, hb, hb0⟩ := Option.map_eq_some_iff.1 hb
  exact ⟨s, b, Reach.init.run (fun _ _ => trivial) hs, hb, hb0, by decide⟩

end Doca.AllReduce
