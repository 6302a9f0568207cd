import Doca.Lib.Bytes
import Doca.Rdmo.Commands

/-!
# RDMO commands on their way to the DPU

Model of the functions `urom_rdmo_task_*`, `urom_worker_rdmo_cmd_packed_len` and
`urom_worker_rdmo_cmd_pack` (`host/worker_rdmo.c`), and of `urom_worker_rdmo_cmd_unpack`
(`dpu/worker_rdmo.c`) on the bytes of a payload.  Pointers are 64-bit numbers on both machines; the
payload is a byte memory that starts at address 0.

* `word`, `setWord` — the members of `struct urom_worker_rdmo_cmd`, which are 64-bit words.
* `uromRdmoTask` — the body that the five task functions share; it is `none` if a write leaves the
  payload.
* `Survives` — the call returns an error, or the DPU unpacks what the caller passed.

The verdict of the packer is ignored, and unpacking makes up a `packed_memh` where there was none.

Principal result: `command_survives_iff`.
-/

namespace Doca.Rdmo

open Doca.Lib Option Nat

/-! ## The struct in memory -/

variable (b : Nat → UInt8)

def word (i : Nat) : UInt64 := UInt64.ofNat (readLe b (8 * i) 8)

def wordBytes (ws : List UInt64) : List UInt8 := ws.flatMap fun w => leBytes 8 w.toNat

def setWord (i : Nat) (v : UInt64) : Nat → UInt8 := store b (8 * i) (wordBytes [v])

def payloadDesc (len : UInt64) : Desc where
  destId := 0
  type := 0
  uromContext := 0
  len := len
  rdmoType := word b 0
  clientInit := ⟨word b 1, word b 3⟩
  rqCreate := word b 2
  rqDestroy := word b 1
  mrReg := ⟨word b 1, word b 2, word b 4, word b 6⟩
  mrDereg := word b 1

/-! ## Packing -/

def cmdPackedLen : UInt64 :=
  match (payloadDesc b 0).kind with
  | some .clientInit => CMD_LEN + word b 3
  | some .rqCreate => CMD_LEN + word b 2
  | some .mrReg => CMD_LEN + word b 4 + word b 6
  | _ => CMD_LEN

def writePayload (cap : UInt64) (b : Nat → UInt8) (a : Nat) (xs : List UInt8) : Option (Nat → UInt8) :=
  if a + xs.length ≤ cap.toNat then some (store b a xs) else none

structure PackHead where
  tail : Nat
  len : UInt64
  bytes : Nat → UInt8

variable (host : Nat → UInt8)

def packRaw (cap ptr len : UInt64) (h : PackHead) : Option PackHead := do
  let b ← writePayload cap h.bytes h.tail (load host ptr.toNat len.toNat)
  pure ⟨h.tail + len.toNat, h.len + len, b⟩

def cmdPack (cap : UInt64) (b : Nat → UInt8) : Option (DocaError × PackHead) := do
  if cmdPackedLen b > cap then return (.initialization, ⟨0, cap, b⟩)
  let b ← writePayload cap b 0 (load b 0 CMD_LEN.toNat)
  let h : PackHead := ⟨CMD_LEN.toNat, CMD_LEN, b⟩
  match (payloadDesc b 0).kind with
  | some .clientInit =>
    let h ← packRaw host cap (word h.bytes 2) (word h.bytes 3) h
    return (.success, h)
  | some .rqCreate =>
    let h ← packRaw host cap (word h.bytes 1) (word h.bytes 2) h
    return (.success, h)
  | some .mrReg =>
    let h ← packRaw host cap (word h.bytes 3) (word h.bytes 4) h
    let h ← packRaw host cap (word h.bytes 5) (word h.bytes 6) h
    return (.success, h)
  | _ => return (.success, h)

/-! ## The task functions -/

/-- What DOCA answers inside of a task function, and the payload of the task: an object in memory, whose
    differences fit into a `ptrdiff_t`. -/
structure TaskEnv where
  allocateInit : DocaError
  getData : DocaError
  getDataLen : DocaError
  submit : DocaError
  capacity : UInt64
  payload : Nat → UInt8
  object : capacity.toNat < 2 ^ 63

structure Buffer where
  ptr : UInt64
  len : UInt64
  null : ptr = 0 → len = 0

def Buffer.bytes (x : Buffer) : List UInt8 := load host x.ptr.toNat x.len.toNat

structure Submitted where
  len : UInt64
  bytes : Nat → UInt8

variable (env : TaskEnv)

def uromRdmoTask (members : List UInt64) :
    Option (Except DocaError Submitted) := do
  if env.allocateInit ≠ .success then return .error env.allocateInit
  if env.getData ≠ .success then return .error env.getData
  if env.getDataLen ≠ .success then return .error env.getDataLen
  let b ← writePayload env.capacity env.payload 0 (wordBytes members)
  let (_, h) ← cmdPack host env.capacity b
  if env.submit ≠ .success then return .error env.submit
  return .ok ⟨h.len, h.bytes⟩

def taskClientInit (id : UInt64) (addr : Buffer) :=
  uromRdmoTask host env [0, id, addr.ptr, addr.len]

def taskRqCreate (addr : Buffer) :=
  uromRdmoTask host env [1, addr.ptr, addr.len]

def taskRqDestroy (rqId : UInt64) :=
  uromRdmoTask host env [2, rqId]

def taskMrRegister (va len : UInt64) (rkey memh : Buffer) :=
  uromRdmoTask host env [3, va, len, rkey.ptr, rkey.len, memh.ptr, memh.len]

def taskMrDeregister (rkeyId : UInt64) :=
  uromRdmoTask host env [4, rkeyId]

inductive HostCall where
  | clientInit (id : UInt64) (addr : Buffer)
  | rqCreate (addr : Buffer)
  | rqDestroy (rqId : UInt64)
  | mrRegister (va len : UInt64) (rkey memh : Buffer)
  | mrDeregister (rkeyId : UInt64)

def HostCall.task : HostCall → Option (Except DocaError Submitted)
  | .clientInit id addr => taskClientInit host env id addr
  | .rqCreate addr => taskRqCreate host env addr
  | .rqDestroy rqId => taskRqDestroy host env rqId
  | .mrRegister va len rkey memh => taskMrRegister host env va len rkey memh
  | .mrDeregister rkeyId => taskMrDeregister host env rkeyId

/-! ## Unpacking -/

/-- `urom_worker_rdmo_cmd_unpack` for the payload `b` of `len` bytes at the address `plugin`. -/
def rdmoUnpack (plugin len : UInt64) (b : Nat → UInt8) : DocaError × (Nat → UInt8) :=
  if len < CMD_LEN then (.invalidValue, b)
  else
    let ptr := plugin + CMD_LEN
    let (extendedMem, b) :=
      match (payloadDesc b len).kind with
      | some .clientInit =>
        let b := setWord b 2 ptr
        (word b 3, b)
      | some .rqCreate =>
        let b := setWord b 1 ptr
        (word b 2, b)
      | some .mrReg =>
        let b := setWord b 3 ptr
        let ptr := ptr + word b 4
        let b := setWord b 5 ptr
        (word b 4 + word b 6, b)
      | _ => (0, b)
    if len ≠ extendedMem + CMD_LEN then (.invalidValue, b) else (.success, b)

def behind (plugin : UInt64) (b : Nat → UInt8) (ptr len : UInt64) : List UInt8 :=
  load b (ptr - plugin).toNat len.toNat

def HostCall.Received (plugin : UInt64) (b : Nat → UInt8) : HostCall → Prop
  | .clientInit id addr =>
    word b 0 = 0 ∧ word b 1 = id ∧ word b 3 = addr.len ∧
      behind plugin b (word b 2) (word b 3) = addr.bytes host
  | .rqCreate addr =>
    word b 0 = 1 ∧ word b 2 = addr.len ∧ behind plugin b (word b 1) (word b 2) = addr.bytes host
  | .rqDestroy rqId => word b 0 = 2 ∧ word b 1 = rqId
  | .mrRegister va len rkey memh =>
    word b 0 = 3 ∧ word b 1 = va ∧ word b 2 = len ∧ word b 4 = rkey.len ∧ word b 6 = memh.len ∧
      behind plugin b (word b 3) (word b 4) = rkey.bytes host ∧
      behind plugin b (word b 5) (word b 6) = memh.bytes host ∧
      (word b 5 = 0 ↔ memh.ptr = 0)
  | .mrDeregister rkeyId => word b 0 = 4 ∧ word b 1 = rkeyId

def HostCall.Arrives (c : HostCall) (sent : Submitted) : Prop :=
  ∀ plugin : UInt64, plugin.toNat + sent.len.toNat < 2 ^ 64 →
    (rdmoUnpack plugin sent.len sent.bytes).1 = .success ∧
      c.Received host plugin (rdmoUnpack plugin sent.len sent.bytes).2

def Survives (c : HostCall) : Prop :=
  match c.task host env with
  | none => False
  | some (.error _) => True
  | some (.ok sent) => c.Arrives host sent

/-! ## Words and inline data -/

section Memory

variable {b : Nat → UInt8}

theorem wordBytes_length : ∀ ws : List UInt64, (wordBytes ws).length = 8 * ws.length
  | [] => rfl
  | w :: ws => by
    have ih := wordBytes_length ws
    simp only [wordBytes, List.flatMap_cons, List.length_append, leBytes_length, List.length_cons] at ih ⊢
    omega

theorem wordBytes_getElem? : ∀ {ws : List UInt64} {i j : Nat} {v : UInt64} {x : UInt8},
    ws[i]? = some v → (leBytes 8 v.toNat)[j]? = some x → (wordBytes ws)[8 * i + j]? = some x
  | w :: ws, 0, j, v, x, hv, hx => by
    rw [List.getElem?_cons_zero, some.injEq] at hv
    subst hv
    have hj : j < (leBytes 8 w.toNat).length := (List.getElem?_eq_some_iff.mp hx).1
    rw [wordBytes, List.flatMap_cons, mul_zero, zero_add, List.getElem?_append_left hj, hx]
  | w :: ws, i + 1, j, v, x, hv, hx => by
    rw [List.getElem?_cons_succ] at hv
    have ih := wordBytes_getElem? hv hx
    rw [wordBytes, List.flatMap_cons, List.getElem?_append_right (by rw [leBytes_length]; omega),
      leBytes_length, show 8 * (i + 1) + j - 8 = 8 * i + j by omega]
    exact ih
  | [], _, _, _, _, hv, _ => by simp at hv

theorem word_store_wordBytes {ws : List UInt64} {i k : Nat} {v : UInt64} (hv : ws[i]? = some v) :
    word (store b (8 * k) (wordBytes ws)) (k + i) = v := by
  have hread : readLe (store b (8 * k) (wordBytes ws)) (8 * (k + i)) 8 = v.toNat % 256 ^ 8 := by
    apply readLe_of_bytes
    intro j x hx
    rw [mul_add, add_assoc]
    exact store_of_getElem? (wordBytes_getElem? hv hx)
  have hlt : v.toNat < 256 ^ 8 := v.toNat_lt
  rw [word, hread, mod_eq_of_lt hlt, UInt64.ofNat_toNat]

theorem word_store_outside {a i : Nat} {xs : List UInt8} (h : 8 * i + 8 ≤ a ∨ a + xs.length ≤ 8 * i) :
    word (store b a xs) i = word b i := by
  rw [word, word, readLe_store_outside b a xs h]

theorem word_setWord (i j : Nat) (v : UInt64) :
    word (setWord b i v) j = if i = j then v else word b j := by
  split
  · rename_i hij
    have h : word (store b (8 * i) (wordBytes [v])) (i + 0) = v := word_store_wordBytes rfl
    exact hij ▸ h
  · exact word_store_outside (by rw [wordBytes_length, List.length_singleton]; omega)

theorem load_setWord {i a n : Nat} (v : UInt64) (hi : i < 7) (ha : 56 ≤ a) :
    load (setWord b i v) a n = load b a n :=
  load_store_outside _ _ _ (by rw [wordBytes_length, List.length_singleton]; omega)

def Members (ms : List UInt64) (b : Nat → UInt8) : Prop := ∀ i v, ms[i]? = some v → word b i = v

theorem Members.store_inline {ms : List UInt64} {a : Nat} {xs : List UInt8} (h : Members ms b)
    (hms : ms.length ≤ 7) (ha : 56 ≤ a) : Members ms (store b a xs) := by
  intro i v hv
  have hi : i < ms.length := (List.getElem?_eq_some_iff.mp hv).1
  rw [word_store_outside (.inl (by omega))]
  exact h i v hv

theorem members_store_wordBytes (ms : List UInt64) : Members ms (Lib.store b 0 (wordBytes ms)) := by
  intro i v hv
  have h : word (Lib.store b (8 * 0) (wordBytes ms)) (0 + i) = v := word_store_wordBytes hv
  rwa [mul_zero, zero_add] at h

end Memory

/-! ## When a command survives -/

def HostCall.members : HostCall → List UInt64
  | .clientInit id addr => [0, id, addr.ptr, addr.len]
  | .rqCreate addr => [1, addr.ptr, addr.len]
  | .rqDestroy rqId => [2, rqId]
  | .mrRegister va len rkey memh => [3, va, len, rkey.ptr, rkey.len, memh.ptr, memh.len]
  | .mrDeregister rkeyId => [4, rkeyId]

def HostCall.inlineLen : HostCall → Nat
  | .clientInit _ addr | .rqCreate addr => addr.len.toNat
  | .mrRegister _ _ rkey memh => rkey.len.toNat + memh.len.toNat
  | .rqDestroy _ | .mrDeregister _ => 0

def HostCall.Handled : HostCall → Prop
  | .mrRegister _ _ _ memh => memh.ptr ≠ 0
  | _ => True

def HostCall.Fits (c : HostCall) : Prop := 56 + c.inlineLen ≤ env.capacity.toNat

def TaskEnv.Early : Prop :=
  env.allocateInit ≠ .success ∨ env.getData ≠ .success ∨ env.getDataLen ≠ .success

/-- The members fit into the payload, and the packer, which adds lengths modulo `2 ^ 64`, notices if the
    rest does not. -/
def HostCall.InPayload (c : HostCall) : Prop :=
  8 * c.members.length ≤ env.capacity.toNat ∧
    (c.Fits env ∨ env.capacity.toNat < (56 + c.inlineLen) % 2 ^ 64)

section Spec

variable {host b : Nat → UInt8} {env : TaskEnv} {cap : UInt64} {c : HostCall}

def HostCall.inline (host : Nat → UInt8) : HostCall → List UInt8
  | .clientInit _ addr | .rqCreate addr => addr.bytes host
  | .mrRegister _ _ rkey memh => rkey.bytes host ++ memh.bytes host
  | .rqDestroy _ | .mrDeregister _ => []

theorem HostCall.members_length (c : HostCall) : c.members.length ≤ 7 := by
  cases c <;> simp [HostCall.members]

theorem HostCall.task_eq (c : HostCall) : c.task host env = uromRdmoTask host env c.members := by
  cases c <;> rfl

def HostCall.kind : HostCall → CmdType
  | .clientInit _ _ => .clientInit
  | .rqCreate _ => .rqCreate
  | .rqDestroy _ => .rqDestroy
  | .mrRegister _ _ _ _ => .mrReg
  | .mrDeregister _ => .mrDereg

def packed (cap : UInt64) (b : Nat → UInt8) (xs : List UInt8) : Option PackHead :=
  if 56 + xs.length ≤ cap.toNat then some ⟨56 + xs.length, UInt64.ofNat (56 + xs.length), store b 56 xs⟩
  else none

theorem packed_packRaw (ptr len : UInt64) (xs : List UInt8) :
    (packed cap b xs).bind (packRaw host cap ptr len) =
      packed cap b (xs ++ load host ptr.toNat len.toNat) := by
  have hlen : UInt64.ofNat (56 + xs.length) + len = UInt64.ofNat (56 + (xs.length + len.toNat)) := by
    rw [← add_assoc, UInt64.ofNat_add (56 + _), UInt64.ofNat_toNat]
  unfold packed
  rw [List.length_append, load_length, ← store_append]
  by_cases hxs : 56 + xs.length ≤ cap.toNat
  · rw [if_pos hxs, bind_some, packRaw, writePayload, load_length, add_assoc, hlen]
    split <;> rfl
  · rw [if_neg hxs, if_neg (by omega)]
    rfl

theorem HostCall.inline_length (c : HostCall) : (c.inline host).length = c.inlineLen := by
  cases c <;> simp [HostCall.inline, HostCall.inlineLen, Buffer.bytes, load_length]

section

variable (h : Members c.members b)

include h

theorem Members.kind (len : UInt64) : (payloadDesc b len).kind = some c.kind := by
  have h0 : ∀ t, c.members[0]? = some t → (payloadDesc b len).rdmoType = t := h 0
  cases c <;> rw [Desc.kind, h0 _ rfl] <;> rfl

theorem Members.packedLen : (cmdPackedLen b).toNat = (56 + c.inlineLen) % 2 ^ 64 := by
  have hlen : CMD_LEN.toNat = 56 := rfl
  unfold cmdPackedLen
  rw [h.kind]
  cases c with
  | clientInit id addr =>
    show (CMD_LEN + word b 3).toNat = _
    rw [h 3 _ rfl, UInt64.toNat_add, hlen]
    rfl
  | rqCreate addr =>
    show (CMD_LEN + word b 2).toNat = _
    rw [h 2 _ rfl, UInt64.toNat_add, hlen]
    rfl
  | mrRegister va len rkey memh =>
    show (CMD_LEN + word b 4 + word b 6).toNat = _
    rw [h 4 _ rfl, h 6 _ rfl, UInt64.toNat_add, UInt64.toNat_add, hlen, HostCall.inlineLen]
    omega
  | rqDestroy rqId => rfl
  | mrDeregister rkeyId => rfl

theorem cmdPack_reject (hcap : cap.toNat < (56 + c.inlineLen) % 2 ^ 64) :
    cmdPack host cap b = some (.initialization, ⟨0, cap, b⟩) := by
  have hgt : cmdPackedLen b > cap := UInt64.lt_iff_toNat_lt.mpr (by rw [h.packedLen]; exact hcap)
  rw [cmdPack, if_pos hgt]
  rfl

theorem cmdPack_accept (hcap : (56 + c.inlineLen) % 2 ^ 64 ≤ cap.toNat) :
    cmdPack host cap b = (packed cap b (c.inline host)).map fun h => (.success, h) := by
  have hle : ¬ cmdPackedLen b > cap := by
    rw [gt_iff_lt, UInt64.lt_iff_toNat_lt, h.packedLen]
    omega
  have hlen : 0 + CMD_LEN.toNat = 56 := rfl
  rw [cmdPack, if_neg hle, writePayload, load_length, store_load, hlen]
  by_cases hstruct : 56 ≤ cap.toNat
  · have hstart : packed cap b [] = some ⟨56, CMD_LEN, b⟩ := by
      show (if 56 ≤ cap.toNat then some (PackHead.mk 56 CMD_LEN (store b 56 [])) else none) = _
      rw [if_pos hstruct, store_nil]
    have hraw : ∀ a : Buffer, packRaw host cap a.ptr a.len ⟨56, CMD_LEN, b⟩ =
        packed cap b (a.bytes host) := fun a => by
      rw [← List.nil_append (a.bytes host), Buffer.bytes, ← packed_packRaw, hstart, bind_some]
    rw [if_pos hstruct]
    simp only [pure_def, bind_eq_bind, bind_some, h.kind]
    cases c with
    | clientInit id addr =>
      show (packRaw host cap (word b 2) (word b 3) ⟨56, CMD_LEN, b⟩).bind _ = _
      rw [h 2 _ rfl, h 3 _ rfl, hraw, map_eq_bind]
      rfl
    | rqCreate addr =>
      show (packRaw host cap (word b 1) (word b 2) ⟨56, CMD_LEN, b⟩).bind _ = _
      rw [h 1 _ rfl, h 2 _ rfl, hraw, map_eq_bind]
      rfl
    | mrRegister va len rkey memh =>
      show (packRaw host cap (word b 3) (word b 4) ⟨56, CMD_LEN, b⟩).bind _ = _
      show _ = (packed cap b (rkey.bytes host ++ load host memh.ptr.toNat memh.len.toNat)).map _
      rw [h 3 _ rfl, h 4 _ rfl, hraw, ← packed_packRaw]
      unfold packed
      split
      · simp only [bind_some, map_eq_bind]
        rw [word_store_outside (.inl (by omega)), word_store_outside (.inl (by omega)), h 5 _ rfl,
          h 6 _ rfl]
        rfl
      · rfl
    | rqDestroy rqId | mrDeregister rkeyId =>
      show _ = (packed cap b []).map _
      rw [hstart]
      rfl
  · rw [if_neg hstruct, packed, if_neg (by omega)]
    rfl

end

theorem cmdPackedLen_eq (len : UInt64) : (payloadDesc b len).extendedMem + CMD_LEN = cmdPackedLen b := by
  have hkind : (payloadDesc b 0).kind = (payloadDesc b len).kind := rfl
  unfold Desc.extendedMem cmdPackedLen
  rw [hkind]
  cases (payloadDesc b len).kind with
  | none => exact UInt64.zero_add _
  | some k =>
    cases k with
    | clientInit => exact UInt64.add_comm (word b 3) CMD_LEN
    | rqCreate => exact UInt64.add_comm (word b 2) CMD_LEN
    | mrReg =>
      show word b 4 + word b 6 + CMD_LEN = CMD_LEN + word b 4 + word b 6
      rw [UInt64.add_comm, UInt64.add_assoc]
    | rqDestroy | mrDereg => exact UInt64.zero_add _

theorem rdmoUnpack_status (plugin len : UInt64) (b : Nat → UInt8) :
    (rdmoUnpack plugin len b).1 = cmdUnpack (payloadDesc b len) := by
  have hlen : (payloadDesc b len).len = len := rfl
  unfold rdmoUnpack cmdUnpack Desc.extendedMem
  rw [hlen]
  split
  · rfl
  cases hkind : (payloadDesc b len).kind with
  | none => dsimp only; split <;> rfl
  | some k =>
    cases k with
    | clientInit | rqCreate | mrReg =>
      simp only [word_setWord, reduceEqDiff, ↓reduceIte]
      exact apply_ite Prod.fst _ _ _
    | rqDestroy | mrDereg => dsimp only; split <;> rfl

/-! ## Unpacking what was packed -/

def repoint (plugin : UInt64) (b : Nat → UInt8) : CmdType → Nat → UInt8
  | .clientInit => setWord b 2 (plugin + CMD_LEN)
  | .rqCreate => setWord b 1 (plugin + CMD_LEN)
  | .mrReg => setWord (setWord b 3 (plugin + CMD_LEN)) 5 (plugin + CMD_LEN + word b 4)
  | .rqDestroy | .mrDereg => b

theorem Members.unpack_bytes (h : Members c.members b) {plugin len : UInt64} (hlen : ¬ len < CMD_LEN) :
    (rdmoUnpack plugin len b).2 = repoint plugin b c.kind := by
  rw [rdmoUnpack, if_neg hlen, h.kind]
  cases c with
  | mrRegister va n rkey memh =>
    have hlen4 : word (setWord b 3 (plugin + CMD_LEN)) 4 = word b 4 :=
      (word_setWord _ _ _).trans (if_neg (by decide))
    dsimp only [HostCall.kind, repoint]
    rw [hlen4]
    split <;> rfl
  | clientInit | rqCreate | rqDestroy | mrDeregister =>
    dsimp only [HostCall.kind, repoint]
    split <;> rfl

theorem Members.unpack_success (h : Members c.members b) (plugin : UInt64)
    (hlt : 56 + c.inlineLen < 2 ^ 64) :
    (rdmoUnpack plugin (UInt64.ofNat (56 + c.inlineLen)) b).1 = .success := by
  have hlen : cmdPackedLen b = UInt64.ofNat (56 + c.inlineLen) := by
    apply UInt64.toNat_inj.mp
    rw [h.packedLen, UInt64.toNat_ofNat']
  have hge : ¬ UInt64.ofNat (56 + c.inlineLen) < CMD_LEN := by
    rw [UInt64.lt_iff_toNat_lt, UInt64.toNat_ofNat', mod_eq_of_lt hlt]
    show ¬ 56 + c.inlineLen < 56
    omega
  rw [rdmoUnpack_status, cmdUnpack, cmdPackedLen_eq, hlen]
  exact (if_neg hge).trans (if_neg fun hne => hne rfl)

theorem behind_add (plugin off len : UInt64) (b : Nat → UInt8) :
    behind plugin b (plugin + off) len = load b off.toNat len.toNat := by
  have hoff : plugin + off - plugin = off := by
    rw [UInt64.add_comm, UInt64.add_sub_cancel]
  rw [behind, hoff]

theorem Buffer.length_bytes (x : Buffer) : (x.bytes host).length = x.len.toNat := load_length _ _ _

theorem Buffer.load_store (x : Buffer) (b : Nat → UInt8) (a : Nat) :
    load (store b a (x.bytes host)) a x.len.toNat = x.bytes host := by
  rw [← x.length_bytes, load_store_same]

/-- The members of a registration are unpacked as they were given, except that there is always a
    handle. -/
theorem received_iff {b₀ : Nat → UInt8} (h : Members c.members b₀) {plugin : UInt64}
    (hmem : plugin.toNat + (56 + c.inlineLen) < 2 ^ 64) :
    c.Received host plugin (repoint plugin (store b₀ 56 (c.inline host)) c.kind) ↔ c.Handled := by
  have h' : Members c.members (store b₀ 56 (c.inline host)) :=
    h.store_inline c.members_length (le_refl 56)
  cases c with
  | clientInit id addr =>
    dsimp only [HostCall.Received, HostCall.Handled, repoint, HostCall.kind]
    simp only [word_setWord, reduceEqDiff, OfNat.ofNat_ne_zero, OfNat.ofNat_ne_one, ↓reduceIte]
    rw [h' 0 _ rfl, h' 1 _ rfl, h' 3 _ rfl, behind_add, load_setWord _ (by decide) (by decide)]
    exact iff_true_intro ⟨rfl, rfl, rfl, addr.load_store b₀ 56⟩
  | rqCreate addr =>
    dsimp only [HostCall.Received, HostCall.Handled, repoint, HostCall.kind]
    simp only [word_setWord, reduceEqDiff, one_ne_zero, ↓reduceIte]
    rw [h' 0 _ rfl, h' 2 _ rfl, behind_add, load_setWord _ (by decide) (by decide)]
    exact iff_true_intro ⟨rfl, rfl, addr.load_store b₀ 56⟩
  | mrRegister va len rkey memh =>
    have hrange : plugin.toNat + (56 + (rkey.len.toNat + memh.len.toNat)) < 2 ^ 64 := hmem
    have hoff : (CMD_LEN + rkey.len).toNat = 56 + rkey.len.toNat := by
      rw [UInt64.toNat_add, show CMD_LEN.toNat = 56 from rfl, mod_eq_of_lt (by omega)]
    -- the data of the handle follow those of the key
    have hsplit : store b₀ 56 (rkey.bytes host ++ memh.bytes host) =
        store (store b₀ 56 (rkey.bytes host)) (56 + rkey.len.toNat) (memh.bytes host) := by
      rw [← store_append, rkey.length_bytes]
    have hrkey : load (store b₀ 56 (rkey.bytes host ++ memh.bytes host)) 56 rkey.len.toNat =
        rkey.bytes host := by
      rw [hsplit, load_store_outside _ _ _ (.inl (le_refl _)), rkey.load_store]
    have hmemh : load (store b₀ 56 (rkey.bytes host ++ memh.bytes host)) (56 + rkey.len.toNat)
        memh.len.toNat = memh.bytes host := by
      rw [hsplit, memh.load_store]
    have hptr : plugin + CMD_LEN + rkey.len ≠ 0 := by
      intro hzero
      have htoNat : (plugin + (CMD_LEN + rkey.len)).toNat = 0 := by
        rw [← UInt64.add_assoc, hzero]
        rfl
      rw [UInt64.toNat_add, hoff] at htoNat
      omega
    dsimp only [HostCall.Received, HostCall.Handled, repoint, HostCall.kind, HostCall.inline] at h' ⊢
    simp only [word_setWord, reduceEqDiff, OfNat.ofNat_ne_zero, OfNat.ofNat_ne_one, ↓reduceIte]
    rw [h' 0 _ rfl, h' 1 _ rfl, h' 2 _ rfl, h' 4 _ rfl, h' 6 _ rfl, UInt64.add_assoc, behind_add,
      behind_add, hoff, load_setWord _ (by decide) (le_add_right _ _),
      load_setWord _ (by decide) (by decide), load_setWord _ (by decide) (by decide),
      load_setWord _ (by decide) (le_add_right _ _)]
    rw [UInt64.add_assoc] at hptr
    constructor
    · intro hreceived hzero
      exact hptr (hreceived.2.2.2.2.2.2.2.mpr hzero)
    · intro hne
      exact ⟨rfl, rfl, rfl, rfl, rfl, hrkey, hmemh, iff_of_false hptr hne⟩
  | rqDestroy rqId | mrDeregister rkeyId => exact iff_true_intro ⟨h' 0 _ rfl, h' 1 _ rfl⟩

/-! ## The task functions -/

theorem uromRdmoTask_early (host : Nat → UInt8) (hearly : env.Early) (ms : List UInt64) :
    ∃ e, uromRdmoTask host env ms = some (.error e) := by
  unfold uromRdmoTask
  by_cases h1 : env.allocateInit = .success
  · by_cases h2 : env.getData = .success
    · have h3 : env.getDataLen ≠ .success := by
        rcases hearly with h | h | h
        · exact absurd h1 h
        · exact absurd h2 h
        · exact h
      rw [if_neg (not_not_intro h1), if_neg (not_not_intro h2), if_pos h3]
      exact ⟨_, rfl⟩
    · rw [if_neg (not_not_intro h1), if_pos h2]
      exact ⟨_, rfl⟩
  · rw [if_pos h1]
    exact ⟨_, rfl⟩

theorem uromRdmoTask_late (hlate : ¬ env.Early) (ms : List UInt64) : uromRdmoTask host env ms =
      (writePayload env.capacity env.payload 0 (wordBytes ms)).bind fun b =>
        (cmdPack host env.capacity b).bind fun r =>
          if env.submit ≠ .success then some (.error env.submit) else some (.ok ⟨r.2.len, r.2.bytes⟩) := by
  unfold TaskEnv.Early at hlate
  push Not at hlate
  obtain ⟨h1, h2, h3⟩ := hlate
  unfold uromRdmoTask
  rw [if_neg (not_not_intro h1), if_neg (not_not_intro h2), if_neg (not_not_intro h3)]
  rfl

theorem Members.not_arrives (h : Members c.members b)
    (hcap : cap.toNat < (56 + c.inlineLen) % 2 ^ 64) (hobject : cap.toNat < 2 ^ 63) :
    ¬ c.Arrives host ⟨cap, b⟩ := by
  have hne : cap ≠ cmdPackedLen b := by
    intro heq
    rw [heq, h.packedLen] at hcap
    exact lt_irrefl _ hcap
  have hlen : (payloadDesc b cap).len = cap := rfl
  intro harrives
  have hone : (1 : UInt64).toNat + cap.toNat < 2 ^ 64 := by
    rw [UInt64.toNat_one]
    omega
  have hstatus : (rdmoUnpack 1 cap b).1 = .success := (harrives 1 hone).1
  rw [rdmoUnpack_status, cmdUnpack, cmdPackedLen_eq, hlen, if_pos hne] at hstatus
  split at hstatus <;> cases hstatus

theorem Members.arrives_iff (h : Members c.members b) (hlt : 56 + c.inlineLen < 2 ^ 63) :
    c.Arrives host ⟨UInt64.ofNat (56 + c.inlineLen), store b 56 (c.inline host)⟩ ↔ c.Handled := by
  have hlen : (UInt64.ofNat (56 + c.inlineLen)).toNat = 56 + c.inlineLen := by
    rw [UInt64.toNat_ofNat', mod_eq_of_lt (by omega)]
  have hge : ¬ UInt64.ofNat (56 + c.inlineLen) < CMD_LEN := by
    rw [UInt64.lt_iff_toNat_lt, hlen]
    show ¬ 56 + c.inlineLen < 56
    omega
  have h' : Members c.members (store b 56 (c.inline host)) :=
    h.store_inline c.members_length (le_refl 56)
  unfold HostCall.Arrives
  dsimp only
  rw [hlen]
  constructor
  · intro hall
    have hone : (1 : UInt64).toNat + (56 + c.inlineLen) < 2 ^ 64 := by
      rw [UInt64.toNat_one]
      omega
    have hreceived := (hall 1 hone).2
    rw [h'.unpack_bytes hge] at hreceived
    exact (received_iff h hone).mp hreceived
  · intro hhandled plugin hplugin
    rw [h'.unpack_bytes hge]
    exact ⟨h'.unpack_success plugin (by omega), (received_iff h hplugin).mpr hhandled⟩

theorem Survives.arrives {host : Nat → UInt8} {env : TaskEnv} {c : HostCall} {sent : Submitted}
    (h : Survives host env c) (htask : c.task host env = some (.ok sent)) : c.Arrives host sent := by
  rw [Survives, htask] at h
  exact h

/-- **A command survives exactly if DOCA fails the call, or it fits into the payload and does not
    lack the handle of a registration.** -/
theorem command_survives_iff (host : Nat → UInt8) (env : TaskEnv) (c : HostCall) : Survives host env c ↔
      env.Early ∨ (env.submit ≠ .success ∧ c.InPayload env) ∨ (c.Fits env ∧ c.Handled) := by
  have hmembers : c.members.length ≤ 7 := c.members_length
  have hobject := env.object
  unfold Survives
  rw [c.task_eq]
  by_cases hearly : env.Early
  · obtain ⟨e, he⟩ := uromRdmoTask_early host hearly c.members
    rw [he]
    exact iff_of_true trivial (.inl hearly)
  rw [uromRdmoTask_late hearly, or_iff_right hearly]
  by_cases hmem : 8 * c.members.length ≤ env.capacity.toNat
  · have hwrite : writePayload env.capacity env.payload 0 (wordBytes c.members) =
        some (store env.payload 0 (wordBytes c.members)) := by
      rw [writePayload, wordBytes_length, zero_add, if_pos hmem]
    have hb : Members c.members (store env.payload 0 (wordBytes c.members)) :=
      members_store_wordBytes c.members
    rw [hwrite, bind_some]
    by_cases hfits : c.Fits env
    · have hle : 56 + c.inlineLen ≤ env.capacity.toNat := hfits
      rw [cmdPack_accept hb (by omega), packed, c.inline_length, if_pos hle, map_some, bind_some]
      by_cases hsubmit : env.submit = .success
      · rw [if_neg (not_not_intro hsubmit), or_iff_right fun h => h.1 hsubmit, and_iff_right hfits]
        exact hb.arrives_iff (lt_of_le_of_lt hfits hobject)
      · rw [if_pos hsubmit]
        exact iff_of_true trivial (.inl ⟨hsubmit, hmem, .inl hfits⟩)
    · rw [or_iff_left fun h => hfits h.1]
      rcases lt_or_ge env.capacity.toNat ((56 + c.inlineLen) % 2 ^ 64) with hwrap | hwrap
      · rw [cmdPack_reject hb hwrap, bind_some]
        by_cases hsubmit : env.submit = .success
        · rw [if_neg (not_not_intro hsubmit)]
          exact iff_of_false (hb.not_arrives hwrap hobject) fun h => h.1 hsubmit
        · rw [if_pos hsubmit]
          exact iff_of_true trivial ⟨hsubmit, hmem, .inr hwrap⟩
      · rw [cmdPack_accept hb hwrap, packed, c.inline_length]
        rw [HostCall.Fits] at hfits
        rw [if_neg hfits]
        refine iff_of_false (fun h => h) ?_
        rintro ⟨_, _, hin | hin⟩
        · exact hfits hin
        · omega
  · have hwrite : writePayload env.capacity env.payload 0 (wordBytes c.members) = none := by
      rw [writePayload, wordBytes_length, zero_add, if_neg hmem]
    rw [hwrite]
    refine iff_of_false (fun h => h) ?_
    rintro (⟨_, hin⟩ | ⟨hfits, _⟩)
    · exact hmem hin.1
    · unfold HostCall.Fits at hfits
      omega

end Spec

def smoothEnv : TaskEnv := ⟨.success, .success, .success, .success, 128, fun _ => 0, by decide⟩

def noHandle : HostCall := .mrRegister 4096 64 ⟨16, 4, by decide⟩ ⟨0, 0, fun _ => rfl⟩

def longAddress : HostCall := .clientInit 1 ⟨16, 100, by decide⟩

/-- A registration without a handle arrives with one, and an address that does not fit is submitted
    although the packer refused it. -/
theorem command_lost :
    ¬ Survives (fun _ => 7) smoothEnv noHandle ∧ ¬ Survives (fun _ => 7) smoothEnv longAddress := by
  constructor
  · intro hsurvives
    have hnull := (hsurvives.arrives rfl 65536 (by decide +kernel)).2.2.2.2.2.2.2.2
    exact absurd (hnull.mpr rfl) (by decide +kernel)
  · intro hsurvives
    have hsuccess := (hsurvives.arrives rfl 65536 (by decide +kernel)).1
    exact absurd hsuccess (by decide +kernel)

end Doca.Rdmo
