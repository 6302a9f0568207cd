import Doca.DmaCopy.Protocol

/-!
# DMA copy: the joint invariant

* `HostMsg`, `DpuMsg` — the scripts of the two channels: what a message at each position says about
  the program that has sent it.  What it says stays true, whatever the two programs do next.
* `HostOk`, `DpuOk` — how many messages a program has sent and taken in front of each of its calls,
  and what it knows by then.
* `HostFrame`, `DpuFrame` — what a step of one program leaves alone; `hostStep_ok`, `dpuStep_ok` —
  what it does.

Principal result: `inv_reach` — the invariant holds in every state of every run.
-/

namespace Doca.DmaCopy

open Doca.Lib Doca.Common Option Nat

/-! ## What is to be achieved -/

def Setup.content (c : Setup) : List UInt8 := (c.hostShown <|> c.dpuShown).getD []

def Setup.size (c : Setup) : UInt64 := validatedSize (c.hostShown <|> c.dpuShown)

/-- Exactly one side finds the file, and the device can copy it. -/
def Negotiated (c : Setup) : Prop := c.hostFound ≠ c.dpuFound ∧ c.size ≤ c.maxBufSize

def State.destFile (c : Setup) (s : State) : Option (List UInt8) :=
  if c.hostFound then s.dpuFile else s.hostFile

variable {c : Setup} {s s' : State}

theorem file_of_hostFound (h : c.hostFound = true) : c.hostFile = some c.content ∧
    validatedSize c.hostShown = c.size ∧ validatedSize c.hostShown = .ofNat c.content.length := by
  obtain ⟨f, hf⟩ := isSome_iff_exists.mp h
  rw [Setup.content, Setup.size, hf]
  exact ⟨(ite_none_right_eq_some.mp hf).2, rfl, rfl⟩

theorem hostShown_of_not_hostFound (h : c.hostFound = false) : c.hostShown = none :=
  isSome_eq_false_iff.mp h |> isNone_iff_eq_none.mp

theorem size_of_not_hostFound (h : c.hostFound = false) : validatedSize c.dpuShown = c.size := by
  rw [Setup.size, hostShown_of_not_hostFound h]
  rfl

theorem file_of_dpuFound (hhost : c.hostFound = false) (h : c.dpuFound = true) :
    c.dpuFile = some c.content ∧ validatedSize c.dpuShown = .ofNat c.content.length := by
  obtain ⟨f, hf⟩ := isSome_iff_exists.mp h
  rw [Setup.content, hostShown_of_not_hostFound hhost, hf]
  exact ⟨(ite_none_right_eq_some.mp hf).2, rfl⟩

theorem dpuFound_eq (h : Negotiated c) : c.dpuFound = !c.hostFound := by
  have hne := h.1
  revert hne
  cases c.hostFound <;> cases c.dpuFound <;> simp

theorem content_length (h : Negotiated c) : c.content.length = c.size.toNat := by
  have hsize : ∀ {n : Nat}, n < 2 ^ 63 → n = (UInt64.ofNat n).toNat := by
    intro n hn
    rw [UInt64.toNat_ofNat', mod_eq_of_lt (by omega)]
  cases hhost : c.hostFound with
  | true =>
    obtain ⟨hfile, hshown, hlen⟩ := file_of_hostFound hhost
    rw [← hshown, hlen]
    exact hsize (c.hostLen _ hfile)
  | false =>
    have hdpu : c.dpuFound = true := by rw [dpuFound_eq h, hhost]; rfl
    obtain ⟨hfile, hlen⟩ := file_of_dpuFound hhost hdpu
    rw [← size_of_not_hostFound hhost, hlen]
    exact hsize (c.dpuLen _ hfile)

/-! ## Functions that do not communicate -/

variable {r : DocaError}

theorem propagate_eq_success {tmp : List DocaError} (h : propagate r tmp = .success) : r = .success := by
  induction tmp generalizing r with
  | nil => exact h
  | cons t tmp ih =>
    have hstep : (if r = .success then t else r) = .success := ih h
    split at hstep
    · assumption
    · exact hstep

theorem memoryAlloc_error {env : AllocEnv} {e : DocaError} (h : memoryAllocAndPopulate env = .error e) :
    e ≠ .success := by
  unfold memoryAllocAndPopulate at h
  split at h
  · rename_i hr
    cases h
    exact hr
  split at h
  · cases h
    nofun
  split at h
  · rename_i hr
    cases h
    exact hr
  split at h
  · rename_i hr
    cases h
    exact hr
  · cases h

variable {size buffer : UInt64}

theorem fill_success {env : FillEnv} {content : List UInt8} {mem mem' : Nat → UInt8}
    (hlen : content.length = size.toNat)
    (h : fillBufferWithFileContent env size (some content) buffer mem = (.success, mem')) :
    load mem' buffer.toNat size.toNat = content := by
  unfold fillBufferWithFileContent at h
  dsimp only at h
  split at h
  · cases h
  split at h
  · cases h
  rename_i hread
  cases h
  rw [Decidable.not_not.mp hread, List.take_take, min_self, List.take_of_length_le (le_of_eq hlen), ← hlen]
  exact load_store_same _ _ _

theorem save_success {env : SaveEnv} {content : List UInt8} {mem : Nat → UInt8}
    {file file' : Option (List UInt8)} (hload : load mem buffer.toNat size.toNat = content)
    (h : saveBufferIntoAFile env size buffer mem file = (.success, file')) :
    file' = some content ↔ ¬ env.reached < size.toNat := by
  have hlen : content.length = size.toNat := by rw [← hload, load_length]
  unfold saveBufferIntoAFile at h
  dsimp only at h
  split at h
  · cases h
  split at h
  · cases h
  · cases h
    rw [hload, some.injEq, List.take_eq_self_iff, hlen, not_lt]

/-! ## Scripts of the channels -/

def Filled (c : Setup) (s : State) : Prop :=
  c.hostFound = true → load s.hostMem s.hostBuf.toNat c.size.toNat = c.content

/-- The content has arrived: in the file of the DPU, or in the buffer of the host. -/
def Delivered (c : Setup) (s : State) : Prop :=
  s.copied = true ∧ 4 ≤ s.toDpu.sent.length ∧
    if c.hostFound then (s.dpuFile = some c.content ↔ s.lost = false)
    else load s.hostMem s.hostBuf.toNat c.size.toNat = c.content

def HostMsg (c : Setup) (s : State) : Nat → Msg → Prop
  | 0, m => m = if c.hostFound then directionMsg true c.size else directionMsg false 0
  | 1, m => m.kind = .descriptor
  | 2, m => (∃ addr, m = addressMsg addr ∧ addr = s.hostBuf) ∧ Filled c s
  | 3, m => m = lengthMsg c.size
  | _, _ => False

def DpuMsg (c : Setup) (s : State) : Nat → Msg → Prop
  | 0, m => m = statusMsg false ∨ Negotiated c ∧
      m = if c.dpuFound then directionMsg false c.size else directionMsg true 0
  | 1, m | 2, m | 3, m => m = statusMsg false ∨ m = statusMsg true
  | 4, m => m = statusMsg false ∨ m = statusMsg true ∧ Delivered c s
  | _, _ => False

/-! ## The programs -/

/-- The host has sent `n` messages, and has taken `k`, none of which was a failure. -/
structure HostAt (c : Setup) (s : State) (n k : Nat) : Prop where
  sent : s.toDpu.sent.length = n
  taken : s.toHost.taken = k
  saw : ∀ j < k, ∀ m, s.toHost.sent[j]? = some m → m ≠ statusMsg false
  size : 1 ≤ k ∨ c.hostFound = true → s.hostSize = c.size
  fresh : c.hostFound = false → s.lost = false

structure Done (c : Setup) (s : State) : Prop where
  ended : 4 < s.toHost.sent.length
  negotiated : Negotiated c
  copied : s.copied = true
  dest : s.destFile c = some c.content ↔ s.lost = false

def HostOk (c : Setup) (s : State) : Prop :=
  match s.host with
  | .connect | .validate | .sendDirection => HostAt c s 0 0
  | .recvDirection => HostAt c s 1 0
  | .prepare | .alloc | .exportPci | .sendDescriptor _ => HostAt c s 1 1
  | .waitDescriptor => HostAt c s 2 1
  | .fill => HostAt c s 2 2 ∧ c.hostFound = true
  | .sendAddress => HostAt c s 2 2 ∧ Filled c s
  | .waitAddress => HostAt c s 3 2
  | .sendLength => HostAt c s 3 3
  | .waitLength => HostAt c s 4 3
  | .waitFinal => HostAt c s 4 4
  | .save => HostAt c s 4 5 ∧ c.hostFound = false
  | .leaving r _ | .returned r => r = .success → Done c s

/-- The DPU has taken `n` messages and sent `k`, after a successful negotiation. -/
structure DpuAt (c : Setup) (s : State) (n k : Nat) : Prop where
  taken : s.toDpu.taken = n
  sent : s.toHost.sent.length = k
  negotiated : Negotiated c
  size : s.dpuSize = c.size
  addr : 3 ≤ n → s.hostDmaAddr = s.hostBuf ∧ Filled c s
  offset : 4 ≤ n → s.hostDmaOffset = c.size
  fresh : c.hostFound = true → s.lost = false

structure DpuStart (c : Setup) (s : State) : Prop where
  taken : s.toDpu.taken = 0
  sent : s.toHost.sent.length = 0
  size : s.dpuSize = validatedSize c.dpuShown
  fresh : c.hostFound = true → s.lost = false

def DpuOk (c : Setup) (s : State) : Prop :=
  match s.dpu with
  | .allocateResources | .listen | .recvDirection => DpuStart c s
  | .tooBig => s.toHost.sent.length = 0
  | .sendDirection => DpuAt c s 1 0
  | .alloc | .recvDescriptor => DpuAt c s 1 1
  | .ackDescriptor => DpuAt c s 2 1
  | .createMmap | .recvAddress => DpuAt c s 2 2
  | .ackAddress => DpuAt c s 3 2
  | .recvLength => DpuAt c s 3 3
  | .ackLength => DpuAt c s 4 3
  | .remoteBuf | .localBuf => DpuAt c s 4 4
  | .fill => DpuAt c s 4 4 ∧ c.dpuFound = true
  | .submit => DpuAt c s 4 4 ∧ (c.dpuFound = true → load s.dpuMem s.dpuBuf.toNat c.size.toNat = c.content)
  | .save => DpuAt c s 4 4 ∧ c.dpuFound = false ∧ s.copied = true ∧
      load s.dpuMem s.dpuBuf.toNat c.size.toNat = c.content
  | .sendFinal => s.toDpu.taken = 4 ∧ s.toHost.sent.length = 4 ∧ Delivered c s
  | .failing _ _ => s.toHost.sent.length ≤ 4
  | .leaving _ _ | .returned _ => True

structure Inv (c : Setup) (s : State) : Prop where
  toDpu : s.toDpu.Follows (HostMsg c s)
  toHost : s.toHost.Follows (DpuMsg c s)
  dpuTaken : s.toDpu.taken ≤ s.toDpu.sent.length
  hostTaken : s.toHost.taken ≤ s.toHost.sent.length
  hostFile : c.hostFound = true → s.hostFile = c.hostFile
  dpuFile : c.dpuFound = true → s.dpuFile = c.dpuFile
  host : HostOk c s
  dpu : DpuOk c s

theorem Inv.init (c : Setup) : Inv c (State.init c) := by
  refine ⟨Channel.Follows.empty, Channel.Follows.empty, le_refl _, le_refl _, fun _ => rfl,
    fun _ => rfl, ?_, ?_⟩
  · show HostAt c (State.init c) 0 0
    refine ⟨rfl, rfl, fun j hj => absurd hj (not_lt_zero j), fun h => ?_, fun _ => rfl⟩
    rcases h with h | h
    · exact absurd h (by decide)
    · exact (file_of_hostFound h).2.1
  · exact ⟨rfl, rfl, rfl, fun _ => rfl⟩

/-! ## What a step of the host leaves alone -/

structure HostFrame (c : Setup) (s s' : State) : Prop where
  dpu : s'.dpu = s.dpu
  taken : s'.toDpu.taken = s.toDpu.taken
  sent : s'.toHost.sent = s.toHost.sent
  grows : s.toDpu.sent.length ≤ s'.toDpu.sent.length
  dpuFile : s'.dpuFile = s.dpuFile
  dpuMem : s'.dpuMem = s.dpuMem
  dpuSize : s'.dpuSize = s.dpuSize
  dpuBuf : s'.dpuBuf = s.dpuBuf
  addr : s'.hostDmaAddr = s.hostDmaAddr
  offset : s'.hostDmaOffset = s.hostDmaOffset
  copied : s'.copied = s.copied
  lost : c.hostFound = true → s'.lost = s.lost
  /-- The buffer does not change any more once its address has been sent -/
  buffer : 3 ≤ s.toDpu.sent.length → s'.hostBuf = s.hostBuf ∧ s'.hostMem = s.hostMem

theorem HostFrame.filled (hf : HostFrame c s s') (hsent : 3 ≤ s.toDpu.sent.length) (h : Filled c s) :
    Filled c s' := by
  obtain ⟨hbuf, hmem⟩ := hf.buffer hsent
  unfold Filled
  rw [hbuf, hmem]
  exact h

theorem HostFrame.delivered (hf : HostFrame c s s') (h : Delivered c s) : Delivered c s' := by
  obtain ⟨hcopied, hsent, hrest⟩ := h
  obtain ⟨hbuf, hmem⟩ := hf.buffer (by omega)
  refine ⟨hf.copied ▸ hcopied, le_trans hsent hf.grows, ?_⟩
  rw [hbuf, hmem, hf.dpuFile]
  cases hhost : c.hostFound with
  | true =>
    rw [hf.lost hhost]
    rw [hhost] at hrest
    exact hrest
  | false =>
    rw [hhost] at hrest
    exact hrest

variable {k : Nat} {m : Msg}

theorem HostFrame.dpuMsg (hf : HostFrame c s s') (h : DpuMsg c s k m) : DpuMsg c s' k m := by
  match k, h with
  | 0, h | 1, h | 2, h | 3, h => exact h
  | 4, .inl h => exact .inl h
  | 4, .inr ⟨h, hdel⟩ => exact .inr ⟨h, hf.delivered hdel⟩

variable {n : Nat}

theorem HostFrame.dpuAt (hf : HostFrame c s s') (htaken : s.toDpu.taken ≤ s.toDpu.sent.length)
    (h : DpuAt c s n k) : DpuAt c s' n k := by
  refine ⟨hf.taken ▸ h.taken, hf.sent ▸ h.sent, h.negotiated, hf.dpuSize ▸ h.size, fun hn => ?_,
    fun hn => hf.offset ▸ h.offset hn, fun hhost => hf.lost hhost ▸ h.fresh hhost⟩
  have hsent : 3 ≤ s.toDpu.sent.length := by
    have := h.taken
    omega
  obtain ⟨haddr, hfilled⟩ := h.addr hn
  exact ⟨by rw [hf.addr, (hf.buffer hsent).1, haddr], hf.filled hsent hfilled⟩

theorem HostFrame.dpuOk (hf : HostFrame c s s') (htaken : s.toDpu.taken ≤ s.toDpu.sent.length)
    (h : DpuOk c s) : DpuOk c s' := by
  have hat : ∀ {n k : Nat}, DpuAt c s n k → DpuAt c s' n k := hf.dpuAt htaken
  have hstart : DpuStart c s → DpuStart c s' := fun h =>
    ⟨hf.taken ▸ h.taken, hf.sent ▸ h.sent, hf.dpuSize ▸ h.size, fun hhost => hf.lost hhost ▸ h.fresh hhost⟩
  unfold DpuOk at h ⊢
  rw [hf.dpu]
  generalize s.dpu = pc at h ⊢
  cases pc with
  | allocateResources | listen | recvDirection => exact hstart h
  | tooBig | failing r n => exact hf.sent ▸ h
  | sendDirection | alloc | recvDescriptor | ackDescriptor | createMmap | recvAddress | ackAddress
  | recvLength | ackLength | remoteBuf | localBuf => exact hat h
  | fill => exact ⟨hat h.1, h.2⟩
  | submit =>
    refine ⟨hat h.1, fun hd => ?_⟩
    rw [hf.dpuMem, hf.dpuBuf]
    exact h.2 hd
  | save =>
    refine ⟨hat h.1, h.2.1, hf.copied ▸ h.2.2.1, ?_⟩
    rw [hf.dpuMem, hf.dpuBuf]
    exact h.2.2.2
  | sendFinal => exact ⟨hf.taken ▸ h.1, hf.sent ▸ h.2.1, hf.delivered h.2.2⟩
  | leaving r n | returned r => trivial

structure HostMoves (c : Setup) (s s' : State) : Prop where
  frame : HostFrame c s s'
  script : s'.toDpu.Follows (HostMsg c s')
  taken : s'.toHost.taken ≤ s'.toHost.sent.length
  file : c.hostFound = true → s'.hostFile = s.hostFile
  ok : HostOk c s'

theorem HostMoves.inv (hm : HostMoves c s s') (h : Inv c s) : Inv c s' := by
  have hf := hm.frame
  refine ⟨hm.script, ?_, ?_, hm.taken, fun hfound => (hm.file hfound).trans (h.hostFile hfound),
    fun hfound => hf.dpuFile.trans (h.dpuFile hfound), hm.ok, hf.dpuOk h.dpuTaken h.dpu⟩
  · have hfollows : s'.toHost.Follows (DpuMsg c s) := by
      intro k m hk
      exact h.toHost k m (hf.sent ▸ hk)
    exact hfollows.mono fun _ _ _ => hf.dpuMsg
  · rw [hf.taken]
    exact le_trans h.dpuTaken hf.grows

/-! ## Steps of the host -/

theorem HostFrame.refl (c : Setup) (s : State) : HostFrame c s s :=
  ⟨rfl, rfl, rfl, le_refl _, rfl, rfl, rfl, rfl, rfl, rfl, rfl, fun _ => rfl, fun _ => ⟨rfl, rfl⟩⟩

theorem HostMoves.stay (h : Inv c s) : HostMoves c s s :=
  ⟨HostFrame.refl c s, h.toDpu, h.hostTaken, fun _ => rfl, h.host⟩

theorem HostMoves.goto (h : Inv c s) {pc : HostPc} (hok : HostOk c { s with host := pc }) :
    HostMoves c s { s with host := pc } :=
  ⟨⟨rfl, rfl, rfl, le_refl _, rfl, rfl, rfl, rfl, rfl, rfl, rfl, fun _ => rfl, fun _ => ⟨rfl, rfl⟩⟩,
    h.toDpu, h.hostTaken, fun _ => rfl, hok⟩

theorem HostAt.goto (h : HostAt c s n k) (pc : HostPc) :
    HostAt c { s with host := pc } n k := ⟨h.sent, h.taken, h.saw, h.size, h.fresh⟩

theorem hostSend_ok (h : Inv c s) {next : HostPc} {out : DocaError → HostPc} (r : DocaError)
    (hm : HostMsg c s s.toDpu.sent.length m)
    (hout : ∀ r, r ≠ .success → HostOk c { s with host := out r })
    (hnext : HostOk c { s with toDpu := s.toDpu.send m, host := next }) :
    HostMoves c s (hostSend s r m next out) := by
  unfold hostSend
  split
  · exact HostMoves.stay h
  split
  · rename_i hr
    exact HostMoves.goto h (hout r hr)
  refine ⟨⟨rfl, rfl, rfl, ?_, rfl, rfl, rfl, rfl, rfl, rfl, rfl, fun _ => rfl, fun _ => ⟨rfl, rfl⟩⟩,
    ?_, h.hostTaken, fun _ => rfl, hnext⟩
  · rw [Channel.send_length]
    exact le_succ _
  · exact Channel.Follows.send h.toDpu hm

theorem HostAt.send (h : HostAt c s n k) (m : Msg) (pc : HostPc) :
    HostAt c { s with toDpu := s.toDpu.send m, host := pc } (n + 1) k := by
  refine ⟨?_, h.taken, h.saw, h.size, h.fresh⟩
  rw [Channel.send_length, h.sent]

theorem HostMoves.take (h : Inv c s) (hm : s.toHost.next? = some m) {pc : HostPc}
    (hok : HostOk c { s with toHost := s.toHost.take, hostSize := size, host := pc }) :
    HostMoves c s { s with toHost := s.toHost.take, hostSize := size, host := pc } :=
  ⟨⟨rfl, rfl, rfl, le_refl _, rfl, rfl, rfl, rfl, rfl, rfl, rfl, fun _ => rfl, fun _ => ⟨rfl, rfl⟩⟩,
    h.toDpu, Channel.taken_lt hm, fun _ => rfl, hok⟩

theorem HostAt.take (h : HostAt c s n k) (hm : s.toHost.next? = some m)
    (hgood : m ≠ statusMsg false) (hsize : size = c.size) (pc : HostPc) :
    HostAt c { s with toHost := s.toHost.take, hostSize := size, host := pc } n (k + 1) := by
  refine ⟨h.sent, ?_, fun j hj x hx => ?_, fun _ => hsize, h.fresh⟩
  · show s.toHost.taken + 1 = k + 1
    rw [h.taken]
  · rcases lt_or_eq_of_le (le_of_lt_succ hj) with hj | hj
    · exact h.saw j hj x hx
    · have hx : s.toHost.next? = some x := by
        rw [Channel.next?, h.taken, ← hj]
        exact hx
      rw [hm] at hx
      exact some.inj hx ▸ hgood

theorem DpuMsg.status (hk : 1 ≤ k) (h : DpuMsg c s k m) : m = statusMsg false ∨ m = statusMsg true := by
  match k, h with
  | 1, h | 2, h | 3, h => exact h
  | 4, .inl h => exact .inl h
  | 4, .inr h => exact .inr h.1

theorem hostOk_leaving (hr : r ≠ .success) (n : Nat) (hpc : s.host = .leaving r n) : HostOk c s := by
  unfold HostOk
  rw [hpc]
  exact fun h => absurd h hr

theorem hostOk_returned (hr : r ≠ .success) (hpc : s.host = .returned r) : HostOk c s := by
  unfold HostOk
  rw [hpc]
  exact fun h => absurd h hr

theorem hostWait_ok (h : Inv c s) {n k : Nat} (hat : HostAt c s n k) (hk : 1 ≤ k) {r : DocaError}
    {next : HostPc} (hstep : hostWait s r next = some s')
    (hnext : s.toHost.next? = some (statusMsg true) →
      HostAt c { s with toHost := s.toHost.take, host := next } n (k + 1) →
      HostOk c { s with toHost := s.toHost.take, host := next }) :
    HostMoves c s s' := by
  unfold hostWait hostRecv at hstep
  split at hstep
  · cases hstep
    exact HostMoves.stay h
  split at hstep
  · rename_i hr
    cases hstep
    exact HostMoves.goto h (hostOk_leaving hr 2 rfl)
  split at hstep
  · cases hstep
  rename_i hm
  cases hstep
  have hscript := h.toHost.next hm
  rw [hat.taken] at hscript
  rcases hscript.status hk with rfl | rfl
  · exact HostMoves.take h hm (hostOk_leaving DocaError.noConfusion 2 rfl)
  · have hne : statusMsg true ≠ statusMsg false := by decide
    exact HostMoves.take h hm (hnext hm (hat.take hm hne (hat.size (.inl hk)) next))

theorem HostAt.message {j : Nat} (hat : HostAt c s n k) (h : Inv c s) (hj : j < k) :
    ∃ m, m ≠ statusMsg false ∧ DpuMsg c s j m := by
  have hlt : j < s.toHost.sent.length := by
    have := h.hostTaken
    rw [hat.taken] at this
    omega
  have hm : s.toHost.sent[j]? = some s.toHost.sent[j] := List.getElem?_eq_getElem hlt
  exact ⟨_, hat.saw j hj _ hm, h.toHost j _ hm⟩

theorem delivered_of_taken (h : Inv c s) (hat : HostAt c s n 5) : Delivered c s := by
  obtain ⟨m, hgood, hbad | ⟨_, hdel⟩⟩ := hat.message h (by decide : 4 < 5)
  · exact absurd hbad hgood
  · exact hdel

theorem negotiated_of_taken (h : Inv c s) (hat : HostAt c s n k) (hk : 1 ≤ k) : Negotiated c := by
  obtain ⟨m, hgood, hbad | ⟨hneg, _⟩⟩ := hat.message h hk
  · exact absurd hbad hgood
  · exact hneg

theorem hostAlloc_ok (h : Inv c s) (hat : HostAt c s 1 1) (buffer : UInt64) :
    HostMoves c s { s with hostBuf := buffer, host := .exportPci } := by
  have hsent := hat.sent
  refine ⟨⟨rfl, rfl, rfl, le_refl _, rfl, rfl, rfl, rfl, rfl, rfl, rfl, fun _ => rfl, ?_⟩, ?_,
    h.hostTaken, fun _ => rfl, ?_⟩
  · intro h3
    omega
  · refine h.toDpu.mono fun k m hk hm => ?_
    have hk : k = 0 := by omega
    subst hk
    exact hm
  · exact ⟨hat.sent, hat.taken, hat.saw, hat.size, hat.fresh⟩

theorem hostOk_check {out next : HostPc} (hout : r ≠ .success → HostOk c { s with host := out })
    (hnext : HostOk c { s with host := next }) :
    HostOk c { s with host := if r ≠ .success then out else next } := by
  split
  · rename_i hr
    exact hout hr
  · exact hnext

theorem hostDirection_ok (h : Inv c s) (hat : HostAt c s 1 0) (hm : s.toHost.next? = some m) :
    HostMoves c s (if (m.received .direction).length ≠ 16 then
        { s with toHost := s.toHost.take, host := .returned .invalidValue }
      else { s with
        toHost := s.toHost.take
        hostSize := if c.hostFound then s.hostSize else readNet (m.received .direction) 8
        host := .prepare }) := by
  split
  · have hne : DocaError.invalidValue ≠ .success := nofun
    exact HostMoves.take h hm (hostOk_returned hne rfl)
  rename_i hlen
  have hscript := h.toHost.next hm
  rw [hat.taken] at hscript
  rcases hscript with rfl | ⟨hneg, rfl⟩
  · exact absurd (by decide) hlen
  refine HostMoves.take h hm (hat.take hm ?_ ?_ .prepare)
  · split <;> exact fun heq => Kind.noConfusion (congrArg Msg.kind heq)
  · cases hfound : c.hostFound with
    | true => exact hat.size (.inr hfound)
    | false =>
      have hdpu : c.dpuFound = true := by rw [dpuFound_eq hneg, hfound]; rfl
      rw [if_neg Bool.false_ne_true, if_pos hdpu]
      exact directionMsg_size false c.size

theorem hostFill_ok (h : Inv c s) (hat : HostAt c s 2 2) (hfound : c.hostFound = true) (env : FillEnv) :
    HostMoves c s (
      let (result, mem) := fillBufferWithFileContent env s.hostSize s.hostFile s.hostBuf s.hostMem
      { s with
        hostMem := mem
        host := if result ≠ .success then .leaving result 2 else .sendAddress }) := by
  have hfile : s.hostFile = some c.content := (h.hostFile hfound).trans (file_of_hostFound hfound).1
  have hsize : s.hostSize = c.size := hat.size (.inr hfound)
  have hlen : c.content.length = s.hostSize.toNat := by
    rw [hsize, content_length (negotiated_of_taken h hat (by decide))]
  have hsent := hat.sent
  rcases hfill : fillBufferWithFileContent env s.hostSize s.hostFile s.hostBuf s.hostMem with ⟨result, mem⟩
  dsimp only
  refine ⟨⟨rfl, rfl, rfl, le_refl _, rfl, rfl, rfl, rfl, rfl, rfl, rfl, fun _ => rfl, ?_⟩, ?_,
    h.hostTaken, fun _ => rfl, ?_⟩
  · intro h3
    omega
  · -- no address has been sent yet
    refine h.toDpu.mono fun k m hk hm => ?_
    match k, hk, hm with
    | 0, _, hm | 1, _, hm => exact hm
    | k + 2, hk, _ => omega
  · split
    · rename_i hr
      exact hostOk_leaving hr 2 rfl
    rename_i hr
    refine ⟨⟨hat.sent, hat.taken, hat.saw, hat.size, hat.fresh⟩, fun _ => ?_⟩
    rw [hfile, Decidable.not_not.mp hr] at hfill
    have hload := fill_success hlen hfill
    rw [hsize] at hload
    exact hload

theorem hostFinal_ok (h : Inv c s) (hat : HostAt c s 4 4) (hm : s.toHost.next? = some (statusMsg true))
    (hnext : HostAt c { s with toHost := s.toHost.take, host := .save } 4 5) :
    HostOk c { s with
      toHost := s.toHost.take, host := if c.hostFound then .leaving .success 2 else .save } := by
  have hover := Channel.taken_lt hm
  have hscript := h.toHost.next hm
  rw [hat.taken] at hover hscript
  rcases hscript with hbad | ⟨_, hcopied, _, hdest⟩
  · exact absurd hbad (by decide)
  split
  · rename_i hfound
    rw [if_pos hfound] at hdest
    intro _
    refine ⟨hover, negotiated_of_taken h hat (by decide), hcopied, ?_⟩
    show (if c.hostFound then s.dpuFile else s.hostFile) = _ ↔ _
    rw [if_pos hfound]
    exact hdest
  · rename_i hfound
    exact ⟨hnext, Bool.eq_false_iff.mpr hfound⟩

theorem hostSave_ok (h : Inv c s) (hat : HostAt c s 4 5) (hfound : c.hostFound = false) (env : SaveEnv) :
    HostMoves c s (
      let (result, file) := saveBufferIntoAFile env s.hostSize s.hostBuf s.hostMem s.hostFile
      { s with
        hostFile := file
        lost := s.lost || env.reached < s.hostSize.toNat
        host := .leaving result 2 }) := by
  obtain ⟨hcopied, _, hload⟩ := delivered_of_taken h hat
  have hno : ¬ c.hostFound = true := Bool.eq_false_iff.mp hfound
  rw [if_neg hno] at hload
  rw [hat.size (.inl (by decide))]
  rcases hsave : saveBufferIntoAFile env c.size s.hostBuf s.hostMem s.hostFile with ⟨result, file⟩
  refine ⟨⟨rfl, rfl, rfl, le_refl _, rfl, rfl, rfl, rfl, rfl, rfl, rfl, fun hyes => absurd hyes hno,
    fun _ => ⟨rfl, rfl⟩⟩, h.toDpu, h.hostTaken, fun hyes => absurd hyes hno, fun hr => ?_⟩
  subst hr
  have hover := h.hostTaken
  rw [hat.taken] at hover
  refine ⟨hover, negotiated_of_taken h hat (by decide), hcopied, ?_⟩
  show (if c.hostFound then s.dpuFile else file) = some c.content ↔ _
  rw [if_neg hno, save_success hload hsave]
  show _ ↔ (s.lost || decide (env.reached < c.size.toNat)) = false
  rw [hat.fresh hfound, Bool.false_or, decide_eq_false_iff_not]

theorem hostStep_ok (h : Inv c s) {x : HostCall} (hstep : hostStep c s x = some s') :
    HostMoves c s s' := by
  have hok := h.host
  unfold HostOk at hok
  unfold hostStep at hstep
  generalize s.host = pc at hok hstep
  -- only the calls that the program is in front of remain
  cases pc <;> cases x <;> try cases hstep
  case connect.call r =>
    exact HostMoves.goto h (hostOk_check (fun hr => hostOk_returned hr rfl) (HostAt.goto hok .validate))
  case validate.call r =>
    split
    · exact HostMoves.stay h
    · refine HostMoves.goto h (hostOk_check (fun hr => hostOk_returned hr rfl) ?_)
      exact HostAt.goto hok .sendDirection
  case sendDirection.send r =>
    refine hostSend_ok h r ?_ (fun r hr => hostOk_returned hr rfl) (HostAt.send hok _ .recvDirection)
    rw [HostAt.sent hok]
    show (if c.hostFound then directionMsg true s.hostSize else directionMsg false 0) = _
    split
    · rename_i hfound
      rw [HostAt.size hok (.inr hfound)]
    · rfl
  case recvDirection.recv r =>
    dsimp only [hostRecv] at hstep
    split at hstep
    · cases hstep
      exact HostMoves.stay h
    split at hstep
    · rename_i hr
      cases hstep
      exact HostMoves.goto h (hostOk_returned hr rfl)
    split at hstep
    · cases hstep
    · rename_i m hm
      cases hstep
      exact hostDirection_ok h hok hm
  case prepare.prepare openDev mmapCreate mmapAddDev =>
    refine HostMoves.goto h (hostOk_check (fun hr => hostOk_returned hr rfl) ?_)
    refine hostOk_check (fun hr => hostOk_leaving hr 1 rfl) ?_
    exact hostOk_check (fun hr => hostOk_leaving hr 2 rfl) (HostAt.goto hok .alloc)
  case alloc.alloc env =>
    cases halloc : memoryAllocAndPopulate env with
    | error e => exact HostMoves.goto h (hostOk_leaving (memoryAlloc_error halloc) 2 rfl)
    | ok buffer => exact hostAlloc_ok h hok buffer
  case exportPci.exportPci r exportDesc =>
    refine HostMoves.goto h (hostOk_check (fun hr => hostOk_leaving hr 2 rfl) ?_)
    exact HostAt.goto hok (.sendDescriptor exportDesc)
  case sendDescriptor.send exportDesc r =>
    refine hostSend_ok h r ?_ (fun r hr => hostOk_leaving hr 2 rfl) (HostAt.send hok _ .waitDescriptor)
    rw [HostAt.sent hok]
    exact rfl
  case waitDescriptor.recv r =>
    refine hostWait_ok h hok (by decide) hstep fun _ hat => ?_
    split
    · rename_i hfound
      exact ⟨hat.goto .fill, hfound⟩
    · rename_i hfound
      exact ⟨hat.goto .sendAddress, fun hyes => absurd hyes hfound⟩
  case fill.fill env => exact hostFill_ok h hok.1 hok.2 env
  case sendAddress.send r =>
    refine hostSend_ok h r ?_ (fun r hr => hostOk_leaving hr 2 rfl) (HostAt.send hok.1 _ .waitAddress)
    rw [hok.1.sent]
    exact ⟨⟨s.hostBuf, rfl, rfl⟩, hok.2⟩
  case waitAddress.recv r | waitLength.recv r =>
    exact hostWait_ok h hok (by decide) hstep fun _ hat => hat
  case sendLength.send r =>
    refine hostSend_ok h r ?_ (fun r hr => hostOk_leaving hr 2 rfl) (HostAt.send hok _ .waitLength)
    rw [HostAt.sent hok, HostAt.size hok (.inl (by decide))]
    exact rfl
  case waitFinal.recv r =>
    exact hostWait_ok h hok (by decide) hstep fun hm hat => hostFinal_ok h hok hm (hat.goto .save)
  case save.save env => exact hostSave_ok h hok.1 hok.2 env
  case leaving.release result calls tmp =>
    dsimp only at hstep
    split at hstep
    · cases hstep
      refine HostMoves.goto h fun hr => ?_
      obtain ⟨hover, hneg, hcopied, hdest⟩ := hok (propagate_eq_success hr)
      exact ⟨hover, hneg, hcopied, hdest⟩
    · cases hstep

/-! ## What a step of the DPU leaves alone -/

structure DpuFrame (c : Setup) (s s' : State) : Prop where
  host : s'.host = s.host
  taken : s'.toHost.taken = s.toHost.taken
  sent : s'.toDpu.sent = s.toDpu.sent
  grows : s.toHost.sent <+: s'.toHost.sent
  hostFile : s'.hostFile = s.hostFile
  hostSize : s'.hostSize = s.hostSize
  hostBuf : s'.hostBuf = s.hostBuf
  lost : c.hostFound = false → s'.lost = s.lost
  mem : c.hostFound = true → s'.hostMem = s.hostMem
  ended : 4 < s.toHost.sent.length → s'.copied = s.copied ∧ s'.dpuFile = s.dpuFile ∧
    s'.lost = s.lost ∧ s'.hostMem = s.hostMem

section

variable (hf : DpuFrame c s s')

include hf

theorem DpuFrame.filled (h : Filled c s) : Filled c s' := by
  intro hfound
  rw [hf.mem hfound, hf.hostBuf]
  exact h hfound

theorem DpuFrame.hostMsg (h : HostMsg c s k m) : HostMsg c s' k m := by
  match k, h with
  | 0, h | 1, h | 3, h => exact h
  | 2, ⟨⟨addr, h, haddr⟩, hfilled⟩ => exact ⟨⟨addr, h, haddr.trans hf.hostBuf.symm⟩, hf.filled hfilled⟩

theorem DpuFrame.done (h : Done c s) : Done c s' := by
  obtain ⟨hcopied, hfile, hlost, _⟩ := hf.ended h.ended
  refine ⟨lt_of_lt_of_le h.ended hf.grows.length_le, h.negotiated, hcopied ▸ h.copied, ?_⟩
  rw [State.destFile, hfile, hf.hostFile, hlost]
  exact h.dest

theorem DpuFrame.hostAt (htaken : s.toHost.taken ≤ s.toHost.sent.length)
    (h : HostAt c s n k) : HostAt c s' n k := by
  refine ⟨hf.sent ▸ h.sent, hf.taken ▸ h.taken, fun j hj m hm => ?_, fun hk => hf.hostSize ▸ h.size hk,
    fun hfound => hf.lost hfound ▸ h.fresh hfound⟩
  have hlt : j < s.toHost.sent.length := by
    have := h.taken
    omega
  obtain ⟨rest, hrest⟩ := hf.grows
  rw [← hrest, List.getElem?_append_left hlt] at hm
  exact h.saw j hj m hm

theorem DpuFrame.hostOk (htaken : s.toHost.taken ≤ s.toHost.sent.length)
    (h : HostOk c s) : HostOk c s' := by
  have hat : ∀ {n k : Nat}, HostAt c s n k → HostAt c s' n k := hf.hostAt htaken
  unfold HostOk at h ⊢
  rw [hf.host]
  generalize s.host = pc at h ⊢
  cases pc with
  | connect | validate | sendDirection | recvDirection | prepare | alloc | exportPci
  | sendDescriptor d | waitDescriptor | waitAddress | sendLength | waitLength | waitFinal => exact hat h
  | fill | save => exact ⟨hat h.1, h.2⟩
  | sendAddress => exact ⟨hat h.1, hf.filled h.2⟩
  | leaving r n | returned r => exact fun hr => hf.done (h hr)

end

structure DpuMoves (c : Setup) (s s' : State) : Prop where
  frame : DpuFrame c s s'
  script : s'.toHost.Follows (DpuMsg c s')
  taken : s'.toDpu.taken ≤ s'.toDpu.sent.length
  file : c.dpuFound = true → s'.dpuFile = s.dpuFile
  ok : DpuOk c s'

theorem DpuMoves.inv (hm : DpuMoves c s s') (h : Inv c s) : Inv c s' := by
  have hf := hm.frame
  refine ⟨?_, hm.script, hm.taken, ?_, fun hfound => hf.hostFile.trans (h.hostFile hfound),
    fun hfound => (hm.file hfound).trans (h.dpuFile hfound), hf.hostOk h.hostTaken h.host, hm.ok⟩
  · have hfollows : s'.toDpu.Follows (HostMsg c s) := by
      intro k m hk
      exact h.toDpu k m (hf.sent ▸ hk)
    exact hfollows.mono fun _ _ _ => hf.hostMsg
  · rw [hf.taken]
    exact le_trans h.hostTaken hf.grows.length_le

/-! ## Steps of the DPU -/

theorem DpuFrame.refl (c : Setup) (s : State) : DpuFrame c s s :=
  ⟨rfl, rfl, rfl, List.prefix_rfl, rfl, rfl, rfl, fun _ => rfl, fun _ => rfl,
    fun _ => ⟨rfl, rfl, rfl, rfl⟩⟩

theorem DpuAt.goto (h : DpuAt c s n k) (buffer : UInt64) (pc : DpuPc) :
    DpuAt c { s with dpuBuf := buffer, dpu := pc } n k :=
  ⟨h.taken, h.sent, h.negotiated, h.size, h.addr, h.offset, h.fresh⟩

theorem DpuAt.send (h : DpuAt c s n k) (m : Msg) (pc : DpuPc) :
    DpuAt c { s with toHost := s.toHost.send m, dpu := pc } n (k + 1) := by
  refine ⟨h.taken, ?_, h.negotiated, h.size, h.addr, h.offset, h.fresh⟩
  rw [Channel.send_length, h.sent]

theorem dpuOk_failing {calls : Nat} (hpc : s.dpu = .failing r calls)
    (hsent : s.toHost.sent.length ≤ 4) : DpuOk c s := by
  unfold DpuOk
  rw [hpc]
  exact hsent

theorem DpuStart.goto (h : DpuStart c s) (pc : DpuPc) : DpuStart c { s with dpu := pc } :=
  ⟨h.taken, h.sent, h.size, h.fresh⟩

theorem dpuMsg_failure (hk : k ≤ 4) : DpuMsg c s k (statusMsg false) := by
  match k, hk with
  | 0, _ | 1, _ | 2, _ | 3, _ | 4, _ => exact .inl rfl

theorem dpuNegotiate_agree {found b : Bool} {own told max size : UInt64}
    (h : dpuNegotiate found own max ((directionMsg b told).received .direction) = .agree size) :
    b ≠ found ∧ size ≤ max ∧ size = if found then own else told := by
  have hb : decide (((directionMsg b told).received .direction).getD 0 0 ≠ 0) = b := by
    simp only [directionMsg_fileInHost, Bool.decide_eq_true]
  unfold dpuNegotiate at h
  dsimp only at h
  rw [if_neg (not_not.mpr (directionMsg_length b told)), hb, directionMsg_size] at h
  generalize (if found then own else told) = actual at h ⊢
  split at h
  · cases h
  split at h
  · cases h
  split at h
  · cases h
  rename_i hboth hneither hmax
  cases h
  refine ⟨fun heq => ?_, UInt64.not_lt.mp hmax, rfl⟩
  subst heq
  cases b
  · exact hneither rfl
  · exact hboth rfl

theorem negotiate_agree {size : UInt64} (h : dpuNegotiate c.dpuFound (validatedSize c.dpuShown) c.maxBufSize
      ((if c.hostFound then directionMsg true c.size else directionMsg false 0).received .direction) =
        .agree size) : Negotiated c ∧ size = c.size := by
  cases hhost : c.hostFound with
  | true =>
    rw [hhost, if_pos rfl] at h
    obtain ⟨hne, hmax, hsize⟩ := dpuNegotiate_agree h
    rw [if_neg hne.symm] at hsize
    exact ⟨⟨hhost ▸ hne, hsize ▸ hmax⟩, hsize⟩
  | false =>
    rw [hhost, if_neg Bool.false_ne_true] at h
    obtain ⟨hne, hmax, hsize⟩ := dpuNegotiate_agree h
    rw [if_pos (Bool.eq_true_of_not_eq_false hne.symm), size_of_not_hostFound hhost] at hsize
    exact ⟨⟨hhost ▸ hne, hsize ▸ hmax⟩, hsize⟩

theorem hostFound_eq (hneg : Negotiated c) : c.hostFound = !c.dpuFound := by
  rw [dpuFound_eq hneg, Bool.not_not]

section

variable (h : Inv c s)

include h

theorem DpuMoves.stay : DpuMoves c s s :=
  ⟨DpuFrame.refl c s, h.toHost, h.dpuTaken, fun _ => rfl, h.dpu⟩

theorem DpuMoves.goto {pc : DpuPc} (hok : DpuOk c { s with dpuBuf := buffer, dpu := pc }) :
    DpuMoves c s { s with dpuBuf := buffer, dpu := pc } :=
  ⟨⟨rfl, rfl, rfl, List.prefix_rfl, rfl, rfl, rfl, fun _ => rfl, fun _ => rfl,
    fun _ => ⟨rfl, rfl, rfl, rfl⟩⟩, h.toHost, h.dpuTaken, fun _ => rfl, hok⟩

theorem dpuSend_ok {next : DpuPc} {out : DocaError → DpuPc} (r : DocaError)
    (hm : DpuMsg c s s.toHost.sent.length m) (hout : ∀ r, DpuOk c { s with dpu := out r })
    (hnext : DpuOk c { s with toHost := s.toHost.send m, dpu := next }) :
    DpuMoves c s (dpuSend s r m next out) := by
  unfold dpuSend
  split
  · exact DpuMoves.stay h
  split
  · exact DpuMoves.goto h (hout r)
  · refine ⟨⟨rfl, rfl, rfl, List.prefix_append _ _, rfl, rfl, rfl, fun _ => rfl, fun _ => rfl,
      fun _ => ⟨rfl, rfl, rfl, rfl⟩⟩, ?_, h.dpuTaken, fun _ => rfl, hnext⟩
    exact Channel.Follows.send h.toHost hm

theorem DpuMoves.take {m : Msg} (hm : s.toDpu.next? = some m) {pc : DpuPc} {size addr offset : UInt64}
    (hok : DpuOk c { s with
      toDpu := s.toDpu.take, dpuSize := size, hostDmaAddr := addr, hostDmaOffset := offset, dpu := pc }) :
    DpuMoves c s { s with
      toDpu := s.toDpu.take, dpuSize := size, hostDmaAddr := addr, hostDmaOffset := offset, dpu := pc } :=
  ⟨⟨rfl, rfl, rfl, List.prefix_rfl, rfl, rfl, rfl, fun _ => rfl, fun _ => rfl,
    fun _ => ⟨rfl, rfl, rfl, rfl⟩⟩, h.toHost, Channel.taken_lt hm, fun _ => rfl, hok⟩

theorem dpuAck_ok {n k : Nat} (hat : DpuAt c s n k) (hk : k = 1 ∨ k = 2 ∨ k = 3)
    (r : DocaError) {next : DpuPc} (calls : Nat)
    (hnext : DpuAt c { s with toHost := s.toHost.send (statusMsg true), dpu := next } n (k + 1) →
      DpuOk c { s with toHost := s.toHost.send (statusMsg true), dpu := next }) :
    DpuMoves c s (dpuAck s r next calls) := by
  refine dpuSend_ok h r ?_ (fun r => trivial) (hnext (hat.send _ _))
  rw [hat.sent]
  rcases hk with rfl | rfl | rfl <;> exact .inr rfl

theorem dpuRecv_ok {calls : Nat} {next : State → Msg → State}
    (hsent : s.toHost.sent.length ≤ 4) (hstep : dpuRecv s r calls next = some s')
    (hnext : ∀ m, s.toDpu.next? = some m → DpuMoves c s (next { s with toDpu := s.toDpu.take } m)) :
    DpuMoves c s s' := by
  unfold dpuRecv at hstep
  split at hstep
  · cases hstep
    exact DpuMoves.stay h
  split at hstep
  · cases hstep
    exact DpuMoves.goto h (dpuOk_failing rfl hsent)
  split at hstep
  · cases hstep
  · rename_i m hm
    cases hstep
    exact hnext m hm

theorem DpuMoves.work (hsent : s.toHost.sent.length = 4) {pc : DpuPc} {mem mem' : Nat → UInt8}
    {file : Option (List UInt8)} {copied lost : Bool} (hlost : c.hostFound = false → lost = s.lost)
    (hmem : c.hostFound = true → mem = s.hostMem) (hfile : c.dpuFound = true → file = s.dpuFile)
    (hok : DpuOk c { s with
      dpu := pc, dpuFile := file, hostMem := mem, dpuMem := mem', copied := copied, lost := lost }) :
    DpuMoves c s { s with
      dpu := pc, dpuFile := file, hostMem := mem, dpuMem := mem', copied := copied, lost := lost } := by
  refine ⟨⟨rfl, rfl, rfl, List.prefix_rfl, rfl, rfl, rfl, hlost, hmem, ?_⟩, ?_, h.dpuTaken, hfile, hok⟩
  · intro h4
    omega
  · refine h.toHost.mono fun k m hk hm => ?_
    match k, hk, hm with
    | 0, _, hm | 1, _, hm | 2, _, hm | 3, _, hm => exact hm
    | k + 4, hk, _ => omega

theorem dpuFill_ok (hat : DpuAt c s 4 4) (hfound : c.dpuFound = true) (env : FillEnv) : DpuMoves c s (
      let (result, mem) := fillBufferWithFileContent env s.dpuSize s.dpuFile s.dpuBuf s.dpuMem
      { s with dpuMem := mem, dpu := if result ≠ .success then .failing result 5 else .submit }) := by
  have hhost : c.hostFound = false := by rw [hostFound_eq hat.negotiated, hfound]; rfl
  have hfile : s.dpuFile = some c.content := (h.dpuFile hfound).trans (file_of_dpuFound hhost hfound).1
  have hlen : c.content.length = s.dpuSize.toNat := by
    rw [hat.size, content_length hat.negotiated]
  rcases hfill : fillBufferWithFileContent env s.dpuSize s.dpuFile s.dpuBuf s.dpuMem with ⟨result, mem⟩
  refine DpuMoves.work h hat.sent (fun _ => rfl) (fun _ => rfl) (fun _ => rfl) ?_
  split
  · exact dpuOk_failing rfl (le_of_eq hat.sent)
  rename_i hr
  refine ⟨⟨hat.taken, hat.sent, hat.negotiated, hat.size, hat.addr, hat.offset, hat.fresh⟩, fun _ => ?_⟩
  rw [hfile, Decidable.not_not.mp hr] at hfill
  have hload := fill_success hlen hfill
  rw [hat.size] at hload
  exact hload

theorem dpuSubmit_ok (hat : DpuAt c s 4 4)
    (hlocal : c.dpuFound = true → load s.dpuMem s.dpuBuf.toNat c.size.toNat = c.content)
    (env : SubmitEnv) :
    DpuMoves c s (if env.before ≠ .success then { s with dpu := .failing env.before 5 }
      else
        let s := runTask c env s
        if env.task ≠ .success then { s with dpu := .failing env.task 5 }
        else { s with dpu := if c.dpuFound then .sendFinal else .save }) := by
  have hroom := le_of_eq hat.sent
  have hsent : 4 ≤ s.toDpu.sent.length := hat.taken ▸ h.dpuTaken
  have hoffset := hat.offset (by decide)
  obtain ⟨haddr, hfilled⟩ := hat.addr (by decide)
  split
  · exact DpuMoves.goto h (dpuOk_failing rfl hroom)
  dsimp only
  unfold runTask
  cases hfound : c.dpuFound with
  | true =>
    have hhost : c.hostFound = false := by rw [hostFound_eq hat.negotiated, hfound]; rfl
    have hmem : c.hostFound = true → ∀ mem : Nat → UInt8, mem = s.hostMem := by
      intro hyes
      rw [hhost] at hyes
      cases hyes
    rw [if_pos rfl]
    split
    · exact DpuMoves.work h hat.sent (fun _ => rfl) (fun hyes => hmem hyes _) (fun _ => rfl)
        (dpuOk_failing rfl hroom)
    rename_i htask
    have htask := Decidable.not_not.mp htask
    refine DpuMoves.work h hat.sent (fun _ => rfl) (fun hyes => hmem hyes _) (fun _ => rfl)
      ⟨hat.taken, hat.sent, decide_eq_true htask, hsent, ?_⟩
    rw [if_neg (by rw [hhost]; exact Bool.false_ne_true)]
    dsimp only
    rw [if_pos htask, hoffset, haddr, hlocal hfound, ← content_length hat.negotiated]
    exact load_store_same _ _ _
  | false =>
    have hhost : c.hostFound = true := by rw [hostFound_eq hat.negotiated, hfound]; rfl
    rw [if_neg Bool.false_ne_true]
    split
    · exact DpuMoves.work h hat.sent (fun _ => rfl) (fun _ => rfl) (fun _ => rfl) (dpuOk_failing rfl hroom)
    rename_i htask
    have htask := Decidable.not_not.mp htask
    refine DpuMoves.work h hat.sent (fun _ => rfl) (fun _ => rfl) (fun _ => rfl)
      ⟨?_, hfound, decide_eq_true htask, ?_⟩
    · exact ⟨hat.taken, hat.sent, hat.negotiated, hat.size, hat.addr, hat.offset, hat.fresh⟩
    · dsimp only
      rw [if_pos htask, hoffset, haddr, hfilled hhost, ← content_length hat.negotiated]
      exact load_store_same _ _ _

theorem dpuSave_ok (hat : DpuAt c s 4 4) (hfound : c.dpuFound = false)
    (hcopied : s.copied = true) (hload : load s.dpuMem s.dpuBuf.toNat c.size.toNat = c.content)
    (env : SaveEnv) :
    DpuMoves c s (
      let (result, file) := saveBufferIntoAFile env s.dpuSize s.dpuBuf s.dpuMem s.dpuFile
      { s with
        dpuFile := file
        lost := s.lost || env.reached < s.dpuSize.toNat
        dpu := if result ≠ .success then .failing result 5 else .sendFinal }) := by
  have hhost : c.hostFound = true := by rw [hostFound_eq hat.negotiated, hfound]; rfl
  rcases hsave : saveBufferIntoAFile env s.dpuSize s.dpuBuf s.dpuMem s.dpuFile with ⟨result, file⟩
  refine DpuMoves.work h hat.sent ?_ (fun _ => rfl) ?_ ?_
  · intro hno
    rw [hhost] at hno
    cases hno
  · intro hyes
    rw [hfound] at hyes
    cases hyes
  · split
    · exact dpuOk_failing rfl (le_of_eq hat.sent)
    rename_i hr
    have hsent : 4 ≤ s.toDpu.sent.length := hat.taken ▸ h.dpuTaken
    rw [hat.size, Decidable.not_not.mp hr] at hsave
    refine ⟨hat.taken, hat.sent, hcopied, hsent, ?_⟩
    rw [if_pos hhost]
    show file = some c.content ↔ (s.lost || decide (env.reached < s.dpuSize.toNat)) = false
    rw [hat.size, save_success hload hsave, hat.fresh hhost, Bool.false_or, decide_eq_false_iff_not]

end

theorem DpuAt.take (h : DpuAt c s n k) {addr offset : UInt64}
    (haddr : 3 ≤ n + 1 → addr = s.hostBuf ∧ Filled c s) (hoffset : 4 ≤ n + 1 → offset = c.size)
    (pc : DpuPc) :
    DpuAt c { s with
      toDpu := s.toDpu.take, hostDmaAddr := addr, hostDmaOffset := offset, dpu := pc } (n + 1) k := by
  refine ⟨?_, h.sent, h.negotiated, h.size, haddr, hoffset, h.fresh⟩
  show s.toDpu.taken + 1 = n + 1
  rw [h.taken]

theorem dpuDirection_ok (h : Inv c s) (hat : DpuStart c s) (hm : s.toDpu.next? = some m) :
    DpuMoves c s (match dpuNegotiate c.dpuFound s.dpuSize c.maxBufSize (m.received .direction) with
      | .reject => { s with toDpu := s.toDpu.take, dpu := .failing .invalidValue 2 }
      | .tooBig size => { s with toDpu := s.toDpu.take, dpuSize := size, dpu := .tooBig }
      | .agree size => { s with toDpu := s.toDpu.take, dpuSize := size, dpu := .sendDirection }) := by
  obtain ⟨htaken, hsent, hsize, hfresh⟩ := hat
  have hscript := h.toDpu.next hm
  rw [htaken] at hscript
  cases hscript
  rw [hsize]
  split
  · exact DpuMoves.take h hm (dpuOk_failing rfl (show s.toHost.sent.length ≤ 4 by omega))
  · exact DpuMoves.take h hm hsent
  · rename_i hagree
    obtain ⟨hneg, rfl⟩ := negotiate_agree hagree
    refine DpuMoves.take h hm ⟨?_, hsent, hneg, rfl, ?_, ?_, hfresh⟩
    · show s.toDpu.taken + 1 = 1
      rw [htaken]
    · intro h3
      omega
    · intro h4
      omega

theorem dpuAddress_ok (h : Inv c s) (hat : DpuAt c s 2 2) (hm : s.toDpu.next? = some m) :
    let addr := readNet (m.received .address) 0
    DpuMoves c s (if SIZE_MAX < addr.toNat then
        { s with toDpu := s.toDpu.take, dpu := .failing .invalidValue 3 }
      else { s with toDpu := s.toDpu.take, hostDmaAddr := addr, dpu := .ackAddress }) := by
  have hsent := hat.sent
  have hscript := h.toDpu.next hm
  rw [hat.taken] at hscript
  obtain ⟨⟨addr, rfl, haddr⟩, hfilled⟩ := hscript
  dsimp only
  split
  · exact DpuMoves.take h hm (dpuOk_failing rfl (show s.toHost.sent.length ≤ 4 by omega))
  · refine DpuMoves.take h hm (hat.take ?_ ?_ .ackAddress)
    · exact fun _ => ⟨(readNet_received_word addr).trans haddr, hfilled⟩
    · intro h4
      omega

theorem dpuLength_ok (h : Inv c s) (hat : DpuAt c s 3 3) (hm : s.toDpu.next? = some m) :
    let length := readNet (m.received .length) 0
    DpuMoves c s (if SIZE_MAX < length.toNat then
        { s with toDpu := s.toDpu.take, dpu := .failing .invalidValue 3 }
      else { s with toDpu := s.toDpu.take, hostDmaOffset := length, dpu := .ackLength }) := by
  have hsent := hat.sent
  have hscript := h.toDpu.next hm
  rw [hat.taken] at hscript
  cases hscript
  dsimp only
  split
  · exact DpuMoves.take h hm (dpuOk_failing rfl (show s.toHost.sent.length ≤ 4 by omega))
  · refine DpuMoves.take h hm (hat.take (fun _ => hat.addr (by decide)) ?_ .ackLength)
    exact fun _ => readNet_received_word c.size

theorem dpuOk_check {out next : DpuPc} (hout : DpuOk c { s with dpu := out })
    (hnext : DpuOk c { s with dpu := next }) :
    DpuOk c { s with dpu := if r ≠ .success then out else next } := by
  split
  · exact hout
  · exact hnext

theorem dpuStep_ok (h : Inv c s) {x : DpuCall} (hstep : dpuStep c s x = some s') : DpuMoves c s s' := by
  have hok := h.dpu
  unfold DpuOk at hok
  unfold dpuStep at hstep
  generalize s.dpu = pc at hok hstep
  cases pc <;> cases x <;> try cases hstep
  case allocateResources.allocateResources allocate maxBufSize ctxStart =>
    refine DpuMoves.goto h (dpuOk_check trivial (dpuOk_check trivial (dpuOk_check trivial ?_)))
    exact DpuStart.goto hok .listen
  case listen.call r =>
    exact DpuMoves.goto h (dpuOk_check trivial (DpuStart.goto hok .recvDirection))
  case recvDirection.recv r =>
    have hsent := DpuStart.sent hok
    exact dpuRecv_ok h (by omega) hstep fun m hm => dpuDirection_ok h hok hm
  case tooBig.send r =>
    have hroom : s.toHost.sent.length ≤ 4 := by omega
    exact dpuSend_ok h r (dpuMsg_failure hroom) (fun r => trivial) trivial
  case sendDirection.send r =>
    refine dpuSend_ok h r ?_ (fun r => trivial) (DpuAt.send hok _ .alloc)
    rw [DpuAt.sent hok, DpuAt.size hok]
    exact .inr ⟨DpuAt.negotiated hok, rfl⟩
  case alloc.alloc env =>
    cases memoryAllocAndPopulate env with
    | error e => exact DpuMoves.goto h trivial
    | ok buffer => exact DpuMoves.goto h (DpuAt.goto hok buffer .recvDescriptor)
  case recvDescriptor.recv r =>
    have hsent := DpuAt.sent hok
    refine dpuRecv_ok h (by omega) hstep fun m hm => ?_
    refine DpuMoves.take h hm (DpuAt.take hok ?_ ?_ .ackDescriptor)
    · intro h3
      omega
    · intro h4
      omega
  case ackDescriptor.send r | ackAddress.send r | ackLength.send r =>
    exact dpuAck_ok h hok (by decide) r _ fun hat => hat
  case createMmap.call r =>
    exact DpuMoves.goto h (dpuOk_check trivial (DpuAt.goto hok s.dpuBuf .recvAddress))
  case recvAddress.recv r =>
    have hsent := DpuAt.sent hok
    exact dpuRecv_ok h (by omega) hstep fun m hm => dpuAddress_ok h hok hm
  case recvLength.recv r =>
    have hsent := DpuAt.sent hok
    exact dpuRecv_ok h (by omega) hstep fun m hm => dpuLength_ok h hok hm
  case remoteBuf.call r =>
    have hroom := le_of_eq (DpuAt.sent hok)
    exact DpuMoves.goto h (dpuOk_check (dpuOk_failing rfl hroom) (DpuAt.goto hok s.dpuBuf .localBuf))
  case localBuf.call r =>
    have hroom := le_of_eq (DpuAt.sent hok)
    refine DpuMoves.goto h (dpuOk_check (dpuOk_failing rfl hroom) ?_)
    split
    · rename_i hfound
      exact ⟨DpuAt.goto hok s.dpuBuf .fill, hfound⟩
    · rename_i hfound
      exact ⟨DpuAt.goto hok s.dpuBuf .submit, fun hyes => absurd hyes hfound⟩
  case fill.fill env => exact dpuFill_ok h hok.1 hok.2 env
  case submit.submit env => exact dpuSubmit_ok h hok.1 hok.2 env
  case save.save env => exact dpuSave_ok h hok.1 hok.2.1 hok.2.2.1 hok.2.2.2 env
  case sendFinal.send r =>
    obtain ⟨_, hsent, hdel⟩ := hok
    refine dpuSend_ok h r ?_ (fun r => trivial) trivial
    rw [hsent]
    exact .inr ⟨rfl, hdel⟩
  case failing.send result calls r =>
    exact dpuSend_ok h r (dpuMsg_failure hok) (fun r => trivial) trivial
  case leaving.release result calls tmp =>
    dsimp only at hstep
    split at hstep
    · cases hstep
      exact DpuMoves.goto h trivial
    · cases hstep

/-! ## Runs -/

theorem inv_step {e : CopyEvent} (h : Inv c s) (hstep : copyStep c s e = some s') : Inv c s' := by
  cases e with
  | host x => exact (hostStep_ok h hstep).inv h
  | dpu x => exact (dpuStep_ok h hstep).inv h

theorem inv_reach {G : State → CopyEvent → Prop} (h : Reach (copyStep c) G (State.init c) s) : Inv c s :=
  Reach.invariant (Inv.init c) (fun _ _ _ hs _ hstep => inv_step hs hstep) h

end Doca.DmaCopy
