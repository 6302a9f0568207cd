import Doca.IpsecGw.Policy
import Doca.Lib.Socket

/-!
# The policy socket

Model of `fill_buffer_from_socket`, `read_message_length` and `read_message_from_socket` of
`ipsec_security_gw.c`, and of the calls that the loop of `ipsec_security_gw_wait_for_traffic` makes:
after `DOCA_ERROR_AGAIN` it calls again, after any other error it stops.

* `PolicyRecord` — a well-formed record, `PolicyRecord.encode` with its length in front.
* `readPolicies` — the policies that successive calls return, each with the offset of the stream at
  which its record was taken to start.
* `expected` — the records of the stream, each at its own offset; `recordStarts` — these offsets and
  the end of the stream.

How much a call has received when it gives up is forgotten: the next one takes the bytes that follow for
a length.

Principal results: `readPolicies_eq_expected_iff` and its form for whole streams at the end of the file.
-/

namespace Doca.IpsecGw

open Doca.Common Doca.Lib Nat List

/-! ## Reading -/

/-- The loop of `fill_buffer_from_socket` while `want` bytes are missing; `want` turns are enough. -/
def fillLoop : Nat → Nat → Sock → Except DocaError (List UInt8) × Sock
  | 0, _, s => (.ok [], s)
  | turns + 1, want, s =>
    match recv want s with
    | (.wouldBlock, s') => (.error .again, s')
    | (.failed, s') => (.error .ioFailed, s')
    | (.data bytes, s') =>
      if bytes = [] then (.error .again, s')
      else if bytes.length < want then
        ((fillLoop turns (want - bytes.length) s').1.map (bytes ++ ·),
          (fillLoop turns (want - bytes.length) s').2)
      else (.ok bytes, s')

def fillBufferFromSocket (bytesToRead : Nat) : Prog Sock DocaError (List UInt8) :=
  Prog.step (fillLoop bytesToRead bytesToRead)

def fillBuffer (size : Nat) (bytes : List UInt8) : List UInt8 :=
  bytes ++ List.replicate (size - bytes.length) 0

def readMessageLength : Prog Sock DocaError Nat := do
  let bytes ← fillBufferFromSocket 4
  let (policyLength, _) ← Prog.ofOption (unpackUint32 (fillBuffer 8 bytes))
  if policyLength.toNat ≠ POLICY_RECORD_MIN_SIZE ∧ policyLength.toNat ≠ POLICY_RECORD_MAX_SIZE then
    Prog.fail .ioFailed
  else pure policyLength.toNat

/-- `read_message_from_socket`, with the policy zeroed before as the loop does. -/
def readMessageFromSocket : Prog Sock DocaError Policy := do
  let policyLength ← readMessageLength
  let bytes ← fillBufferFromSocket policyLength
  let (policy, _) ← Prog.ofOption (unpackPolicyBuffer (fillBuffer 1024 bytes) policyLength Policy.zero)
  pure policy

def readPolicies : Nat → Sock → List (Nat × Policy)
  | 0, _ => []
  | n + 1, s =>
    match readMessageFromSocket s with
    | some (.ok policy, s') => (s.pos, policy) :: readPolicies n s'
    | some (.error .again, s') => readPolicies n s'
    | _ => []

/-! ## The stream -/

structure PolicyRecord where
  bytes : List UInt8
  size : bytes.length = POLICY_RECORD_MIN_SIZE ∨ bytes.length = POLICY_RECORD_MAX_SIZE

namespace PolicyRecord

variable (r : PolicyRecord)

def encode : List UInt8 :=
  packUint32 [] (UInt32.ofNat r.bytes.length) ++ r.bytes

def policy : Policy :=
  match unpackPolicyBuffer r.bytes r.bytes.length Policy.zero with
  | some (policy, _) => policy
  | none => Policy.zero

theorem length_encode : r.encode.length = 4 + r.bytes.length := by
  rw [encode, length_append]
  rfl

theorem unpackPolicyBuffer_append (rest : List UInt8) :
    unpackPolicyBuffer (r.bytes ++ rest) r.bytes.length Policy.zero = some (r.policy, rest) := by
  have hlen : r.bytes.length = 208 + recordKeyLen r.bytes.length := by
    rcases r.size with h | h <;> rw [h] <;> rfl
  obtain ⟨p, hp⟩ := unpackPolicyBuffer_takes r.bytes.length Policy.zero r.bytes hlen
  have hpol : r.policy = p := by
    have h0 := hp []
    simp only [append_nil] at h0
    rw [policy, h0]
  rw [hpol]
  exact hp rest

end PolicyRecord

variable (records : List PolicyRecord)

def encodeAll : List UInt8 :=
  (records.map PolicyRecord.encode).flatten

def expected : Nat → List PolicyRecord → List (Nat × Policy)
  | _, [] => []
  | pos, r :: records => (pos, r.policy) :: expected (pos + r.encode.length) records

def recordStarts : Nat → List PolicyRecord → List Nat
  | pos, [] => [pos]
  | pos, r :: records => pos :: recordStarts (pos + r.encode.length) records

def BlocksBetween (s : Sock) (records : List PolicyRecord) : Prop :=
  ∀ o ∈ s.blocks, o ∈ recordStarts s.pos records

instance (s : Sock) (records : List PolicyRecord) : Decidable (BlocksBetween s records) :=
  inferInstanceAs (Decidable (∀ o ∈ s.blocks, o ∈ recordStarts s.pos records))

/-! ## What a call does -/

theorem fillLoop_cases : ∀ (turns want : Nat) (s : Sock), 0 < want → want ≤ turns → .failed ∉ s.pending →
    (∃ bytes t, fillLoop turns want s = (.ok bytes, t) ∧ bytes.length = want ∧ s.Delivered t bytes) ∨
    ∃ t, fillLoop turns want s = (.error .again, t) ∧ s.CutShort t want := by
  intro turns
  induction turns with
  | zero => intro want s hw ht; omega
  | succ turns ih =>
    intro want s hw ht hf
    rcases recv_cases hw hf with ⟨bytes, t, hr, hne, hle, hd⟩ | ⟨r, t, hr, hret, hb⟩
    · by_cases hlt : bytes.length < want
      · have hpos : 0 < bytes.length := List.length_pos_iff.mpr hne
        have hstep : fillLoop (turns + 1) want s =
            ((fillLoop turns (want - bytes.length) t).1.map (bytes ++ ·),
              (fillLoop turns (want - bytes.length) t).2) := by
          simp only [fillLoop, hr, if_neg hne, if_pos hlt]
        rw [hstep]
        rcases ih (want - bytes.length) t (by omega) (by omega) (hd.noFailure hf) with
          ⟨more, u, hm, hlen, hd'⟩ | ⟨u, hm, hcut⟩
        · refine .inl ⟨bytes ++ more, u, by rw [hm]; rfl, ?_, hd.trans hd'⟩
          rw [length_append]
          omega
        · have hsum : bytes.length + (want - bytes.length) = want := by omega
          exact .inr ⟨u, by rw [hm]; rfl, hsum ▸ hd.cutShort hcut⟩
      · refine .inl ⟨bytes, t, ?_, by omega, hd⟩
        simp only [fillLoop, hr, if_neg hne, if_neg hlt]
    · refine .inr ⟨t, ?_, [], s, hw, .refl s, hb⟩
      rcases hret with rfl | rfl <;> simp only [fillLoop, hr, if_true]

variable {s : Sock}

theorem fillBufferFromSocket_cases {want : Nat} (hw : 0 < want) (hf : .failed ∉ s.pending) :
    (∃ bytes t, fillBufferFromSocket want s = some (.ok bytes, t) ∧ bytes.length = want ∧
      s.Delivered t bytes) ∨
    ∃ t, fillBufferFromSocket want s = some (.error .again, t) ∧ s.CutShort t want := by
  unfold fillBufferFromSocket Prog.step
  rcases fillLoop_cases want want s hw (le_refl _) hf with ⟨bytes, t, h, hlen, hd⟩ | ⟨t, h, hc⟩
  · exact .inl ⟨bytes, t, by rw [h], hlen, hd⟩
  · exact .inr ⟨t, by rw [h], hc⟩

variable {r : PolicyRecord}

theorem readMessageLength_cases {tail : List UInt8} (hf : .failed ∉ s.pending)
    (hs : s.rest = r.encode ++ tail) :
    (∃ pre t, readMessageLength s = some (.ok r.bytes.length, t) ∧ pre.length = 4 ∧
      s.Delivered t pre ∧ t.rest = r.bytes ++ tail) ∨
    ∃ t, readMessageLength s = some (.error .again, t) ∧ s.CutShort t 4 := by
  have h4 : 0 < 4 := by omega
  rcases fillBufferFromSocket_cases h4 hf with ⟨bytes, t, h, hlen, hd⟩ | ⟨t, h, hc⟩
  · rw [PolicyRecord.encode, append_assoc] at hs
    obtain ⟨hpre, hrest⟩ := hd.take hs hlen
    refine .inl ⟨bytes, t, ?_, hlen, hd, hrest⟩
    have hval : (UInt32.ofNat r.bytes.length).toNat = r.bytes.length := by
      rcases r.size with h | h <;> rw [h] <;> rfl
    rw [readMessageLength, Prog.bind_of_ok h, hpre, fillBuffer, unpackUint32_packUint32]
    show (if (UInt32.ofNat r.bytes.length).toNat ≠ _ ∧ (UInt32.ofNat r.bytes.length).toNat ≠ _
      then Prog.fail .ioFailed else pure (UInt32.ofNat r.bytes.length).toNat :
        Prog Sock DocaError Nat) t = _
    rw [hval, if_neg (by rcases r.size with h | h <;> simp [h])]
    rfl
  · exact .inr ⟨t, Prog.bind_of_error h, hc⟩

/-- **At the start of a record a call returns its policy, or is cut short inside the record.** -/
theorem readMessageFromSocket_cases {tail : List UInt8} (hf : .failed ∉ s.pending)
    (hs : s.rest = r.encode ++ tail) :
    (∃ t, readMessageFromSocket s = some (.ok r.policy, t) ∧ s.Delivered t r.encode ∧ t.rest = tail) ∨
    ∃ t, readMessageFromSocket s = some (.error .again, t) ∧ s.CutShort t r.encode.length := by
  have hlen := r.length_encode
  have hpos : 0 < r.bytes.length := by rcases r.size with h | h <;> rw [h] <;> decide
  rcases readMessageLength_cases hf hs with ⟨pre, t, h, hpre, hd, hrest⟩ | ⟨t, h, hc⟩
  · rcases fillBufferFromSocket_cases hpos (hd.noFailure hf) with
      ⟨bytes, u, h', hlen', hd'⟩ | ⟨u, h', hc'⟩
    · obtain ⟨rfl, hrest'⟩ := hd'.take hrest hlen'
      have hall := hd.trans hd'
      have henc : pre ++ r.bytes = r.encode :=
        (hall.take hs (by rw [length_append]; omega)).1
      refine .inl ⟨u, ?_, henc ▸ hall, hrest'⟩
      rw [readMessageFromSocket, Prog.bind_of_ok h, Prog.bind_of_ok h', fillBuffer,
        r.unpackPolicyBuffer_append]
      rfl
    · refine .inr ⟨u, ?_, ?_⟩
      · rw [readMessageFromSocket, Prog.bind_of_ok h, Prog.bind_of_error h']
      · rw [hlen, ← hpre]
        exact hd.cutShort hc'
  · refine .inr ⟨t, Prog.bind_of_error h, ?_⟩
    obtain ⟨got, m, hg, hrest⟩ := hc
    exact ⟨got, m, by omega, hrest⟩

theorem readMessageFromSocket_end (hf : .failed ∉ s.pending) (hs : s.rest = []) :
    ∃ t, readMessageFromSocket s = some (.error .again, t) ∧ t.rest = [] ∧ .failed ∉ t.pending := by
  have h4 : 0 < 4 := by omega
  rcases fillBufferFromSocket_cases h4 hf with ⟨bytes, t, -, hlen, hd⟩ | ⟨t, h, hc⟩
  · have := (List.append_eq_nil_iff.mp (hd.rest.symm.trans hs)).1
    simp [this] at hlen
  · refine ⟨t, ?_, hc.nothing hs, hc.noFailure hf⟩
    exact Prog.bind_of_error (Prog.bind_of_error h)

/-! ## No call goes back -/

theorem fillLoop_pos_le : ∀ (turns want : Nat) (s : Sock), s.pos ≤ (fillLoop turns want s).2.pos := by
  intro turns
  induction turns with
  | zero => intro want s; exact le_refl _
  | succ turns ih =>
    intro want s
    have hr := recv_pos_le want s
    unfold fillLoop
    split
    · rename_i h; rw [h] at hr; exact hr
    · rename_i h; rw [h] at hr; exact hr
    · rename_i bytes s' h
      rw [h] at hr
      split
      · exact hr
      · split
        · exact le_trans hr (ih _ s')
        · exact hr

variable {t : Sock}

theorem readMessageFromSocket_pos_le {r : Except DocaError Policy}
    (h : readMessageFromSocket s = some (r, t)) : s.pos ≤ t.pos := by
  have hrefl : ∀ s : Sock, s.pos ≤ s.pos := fun s => le_refl _
  have htrans : ∀ s t u : Sock, s.pos ≤ t.pos → t.pos ≤ u.pos → s.pos ≤ u.pos :=
    fun _ _ _ => le_trans
  have hfill : ∀ n, Prog.Moves (fun s t => s.pos ≤ t.pos) (fillBufferFromSocket n) := by
    intro n s r t h
    have ht : (fillLoop n n s).2 = t := congrArg Prod.snd (Option.some.inj h)
    exact ht ▸ fillLoop_pos_le n n s
  have hlength : Prog.Moves (fun s t => s.pos ≤ t.pos) readMessageLength := by
    refine .bind htrans (hfill 4) fun bytes => .bind htrans (.ofOption hrefl _) fun _ => ?_
    dsimp only
    split
    · exact .fail hrefl _
    · exact .pure hrefl _
  have hread : Prog.Moves (fun s t => s.pos ≤ t.pos) readMessageFromSocket :=
    .bind htrans hlength fun n => .bind htrans (hfill n) fun bytes =>
      .bind htrans (.ofOption hrefl _) fun _ => .pure hrefl _
  exact hread s r t h

theorem readPolicies_offset_ge {o : Nat} {p : Policy} :
    ∀ (n : Nat) (s : Sock), (o, p) ∈ readPolicies n s → s.pos ≤ o := by
  intro n
  induction n with
  | zero => intro s h; cases h
  | succ n ih =>
    intro s h
    unfold readPolicies at h
    split at h
    · rename_i s' hs
      rcases List.mem_cons.mp h with h | h
      · cases h
        exact le_refl _
      · exact le_trans (readMessageFromSocket_pos_le hs) (ih s' h)
    · rename_i s' hs
      exact le_trans (readMessageFromSocket_pos_le hs) (ih s' h)
    · cases h

/-! ## Whole runs -/

theorem recordStarts_ge {o : Nat} : ∀ (records : List PolicyRecord) (pos : Nat),
    o ∈ recordStarts pos records → pos ≤ o
  | [], _, h => by
    cases List.mem_singleton.mp h
    exact le_refl _
  | r :: records, pos, h => by
    rcases List.mem_cons.mp h with rfl | h
    · exact le_refl _
    · exact le_trans (le_add_right _ _) (recordStarts_ge records _ h)

theorem readPolicies_end : ∀ (n : Nat) (s : Sock), .failed ∉ s.pending → s.rest = [] →
    readPolicies n s = [] := by
  intro n
  induction n with
  | zero => intro s _ _; rfl
  | succ n ih =>
    intro s hf hs
    obtain ⟨t, ht, hrest, hf'⟩ := readMessageFromSocket_end hf hs
    rw [readPolicies, ht]
    exact ih t hf' hrest

theorem blocksBetween_end (hs : s.rest = []) : BlocksBetween s [] := fun o ho =>
  List.mem_singleton.mpr (blockOffsets_of_stream_nil s.pending s.pos o hs ho)

theorem blocksBetween_delivered {records : List PolicyRecord} (hd : s.Delivered t r.encode) :
    BlocksBetween s (r :: records) ↔ BlocksBetween t records := by
  unfold BlocksBetween
  rw [hd.blocks, recordStarts, ← hd.pos]
  have hne : ∀ o ∈ t.blocks, o ≠ s.pos := by
    intro o ho
    have hge := blockOffsets_ge t.pending t.pos o ho
    have hlen := r.length_encode
    have hpos := hd.pos
    omega
  constructor
  · intro h o ho
    exact (List.mem_cons.mp (h o ho)).resolve_left (hne o ho)
  · intro h o ho
    exact mem_cons_of_mem _ (h o ho)

theorem blocksBetween_blocked {records : List PolicyRecord} (hb : s.blocks = t.pos :: t.blocks)
    (hpos : t.pos = s.pos) :
    BlocksBetween s (r :: records) ↔ BlocksBetween t (r :: records) := by
  unfold BlocksBetween
  rw [hb, hpos]
  constructor
  · intro h o ho
    exact h o (mem_cons_of_mem _ ho)
  · intro h o ho
    rcases List.mem_cons.mp ho with rfl | ho
    · exact mem_cons_self ..
    · exact h o ho

/-- **From the start of a record on, enough calls recover exactly the records of the stream if and
    only if every call that returned without data did so between two records.** -/
theorem readPolicies_eq_expected_iff : ∀ (n : Nat) (s : Sock) (records : List PolicyRecord),
    s.work ≤ n → .failed ∉ s.pending → s.rest = encodeAll records →
    (readPolicies n s = expected s.pos records ↔ BlocksBetween s records) := by
  intro n
  induction n with
  | zero =>
    intro s records hn hf hs
    cases records with
    | nil => exact iff_of_true rfl (blocksBetween_end hs)
    | cons r records =>
      have hlen := congrArg length hs
      rw [Sock.work] at hn
      rw [encodeAll, map_cons, flatten_cons, length_append, r.length_encode] at hlen
      omega
  | succ n ih =>
    intro s records hn hf hs
    cases records with
    | nil => exact iff_of_true (readPolicies_end (n + 1) s hf hs) (blocksBetween_end hs)
    | cons r records =>
      have hr := r.length_encode
      have hlen : r.encode.length ≤ s.rest.length := by
        rw [hs, encodeAll, map_cons, flatten_cons, length_append]
        omega
      rcases readMessageFromSocket_cases hf hs with ⟨t, ht, hd, hrest⟩ | ⟨t, ht, hc⟩
      · have hw := hd.work
        have hread : readPolicies (n + 1) s = (s.pos, r.policy) :: readPolicies n t := by
          rw [readPolicies, ht]
        rw [hread, expected, cons_inj_right, ← hd.pos, blocksBetween_delivered hd]
        exact ih t records (by omega) (hd.noFailure hf) hrest
      · obtain ⟨hb, hge, hlt, hw, hsame⟩ := hc.block hlen
        have hread : readPolicies (n + 1) s = readPolicies n t := by
          rw [readPolicies, ht]
        rw [hread]
        by_cases hpos : t.pos = s.pos
        · rw [blocksBetween_blocked hb hpos, ← hpos]
          exact ih t (r :: records) (by omega) (hc.noFailure hf) ((hsame hpos).trans hs)
        · -- The call gave up inside the record: no later one starts at its offset.
          refine iff_of_false (fun h => ?_) (fun h => ?_)
          · have hmem : (s.pos, r.policy) ∈ readPolicies n t := by
              rw [h]
              exact mem_cons_self ..
            have := readPolicies_offset_ge n t hmem
            omega
          · have hmem := h t.pos (hb ▸ mem_cons_self ..)
            rcases List.mem_cons.mp hmem with h | h
            · exact hpos h
            · have := recordStarts_ge records _ h
              omega

/-! ## Fragmentation -/

def atOnce : Sock := ⟨0, [.data (encodeAll records)]⟩

theorem atOnce_blocksBetween : BlocksBetween (atOnce records) records := by
  cases records with
  | nil => exact blocksBetween_end rfl
  | cons r records =>
    have hne : encodeAll (r :: records) ≠ [] := append_ne_nil_of_left_ne_nil (cons_ne_nil _ _) _
    intro o ho
    rw [Sock.blocks, atOnce, blockOffsets_data hne] at ho
    cases ho

/-- **Fragmentation**: the records are read as if they came at once exactly if every call that returns
    without data falls between two records. -/
theorem policy_stream_iff (records : List PolicyRecord) (pending : List RecvResult) (n : Nat)
    (hf : .failed ∉ pending) (hs : stream pending = encodeAll records)
    (hn : (encodeAll records).length + pending.length < n) :
    readPolicies n (atOnce records) = expected 0 records ∧
    (readPolicies n ⟨0, pending⟩ = readPolicies n (atOnce records) ↔
      BlocksBetween ⟨0, pending⟩ records) := by
  have hrest : (atOnce records).rest = encodeAll records := append_nil _
  have hwork : (atOnce records).work ≤ n := by
    rw [Sock.work, hrest]
    exact lt_of_le_of_lt (le_add_right _ _) hn
  have hfail : .failed ∉ (atOnce records).pending := by simp [atOnce]
  have honce : readPolicies n (atOnce records) = expected 0 records :=
    (readPolicies_eq_expected_iff n _ records hwork hfail hrest).mpr (atOnce_blocksBetween records)
  refine ⟨honce, ?_⟩
  rw [honce]
  refine readPolicies_eq_expected_iff n ⟨0, pending⟩ records ?_ hf hs
  rw [Sock.work, Sock.rest, hs]
  exact le_of_lt hn

def zeroRecord : PolicyRecord := ⟨List.replicate 224 0, .inl rfl⟩

theorem policy_stream_iff_pieces :
    let pieces : List RecvResult :=
      [.wouldBlock, .data (zeroRecord.encode.take 3), .data (zeroRecord.encode.drop 3), .wouldBlock]
    BlocksBetween ⟨0, pieces⟩ [zeroRecord] ∧
      readPolicies 300 ⟨0, pieces⟩ = readPolicies 300 (atOnce [zeroRecord]) := by
  refine ⟨by decide +kernel, ?_⟩
  exact (policy_stream_iff [zeroRecord] _ 300 (by decide +kernel) (by decide +kernel)
    (by decide +kernel)).2.mpr (by decide +kernel)

/-- The socket has nothing to deliver between the length and the record: the next call takes the first
    bytes of the record for a length. -/
theorem policy_lost_after_length :
    let pieces : List RecvResult :=
      [.data (zeroRecord.encode.take 4), .wouldBlock, .data (zeroRecord.encode.drop 4)]
    stream pieces = encodeAll [zeroRecord] ∧ .failed ∉ pieces ∧
      (readPolicies 300 ⟨0, pieces⟩).map Prod.snd = [] ∧
      (readPolicies 300 (atOnce [zeroRecord])).map Prod.snd = [zeroRecord.policy] := by
  decide +kernel

end Doca.IpsecGw
