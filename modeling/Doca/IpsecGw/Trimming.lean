import Doca.IpsecGw.Decap

/-!
# Trimming a packet

What `remove_ethernet_padding` (`flow_common.c`) does to a frame with an arbitrary header, and what
`remove_packet_tail` (`flow_decrypt.c`) does to a chain of any number of segments.

* `Mbuf.Consistent` — `pkt_len` is the sum of `data_len` over the chain.
* `PaddingRemoved` — the frame is cut to the datagram that its header announces, or left alone.
* `mbufGetSegOfs_of_lt` — the segment and the offset in it of a byte of the packet.

Principal results: `paddingRemoved_iff` — the difference of the lengths wraps, and the length of the
header is not looked at; `segment_lookup_exact`; `tailRemoved_iff`.
-/

namespace Doca.IpsecGw

open Doca.Lib UInt32 Nat List

/-! ## Chains -/

variable (m : Mbuf)

def Mbuf.segs : List Seg := m.first :: m.rest

def chainLen (segs : List Seg) : Nat := (segs.map (·.dataLen.toNat)).sum

def Seg.data (s : Seg) : List UInt8 := load s.buf s.mtod s.dataLen.toNat

def Mbuf.content : List UInt8 := m.segs.flatMap Seg.data

def Mbuf.Consistent : Prop := m.pktLen.toNat = chainLen m.segs

instance (m : Mbuf) : Decidable m.Consistent :=
  inferInstanceAs (Decidable (m.pktLen.toNat = chainLen m.segs))

def lastLen : List Seg → Nat
  | [] => 0
  | s :: rest => if lastLen rest = 0 then s.dataLen.toNat else lastLen rest

@[simp] theorem chainLen_append (l₁ l₂ : List Seg) : chainLen (l₁ ++ l₂) = chainLen l₁ + chainLen l₂ := by
  simp [chainLen]

@[simp] theorem chainLen_cons (s : Seg) (l : List Seg) :
    chainLen (s :: l) = s.dataLen.toNat + chainLen l := rfl

@[simp] theorem chainLen_nil : chainLen [] = 0 := rfl

theorem flatMap_data_length (l : List Seg) : (l.flatMap Seg.data).length = chainLen l := by
  induction l with
  | nil => rfl
  | cons s rest ih => simp [Seg.data, ih]

theorem lastLen_le (l : List Seg) : lastLen l ≤ chainLen l := by
  induction l with
  | nil => exact le_refl 0
  | cons s rest ih =>
    rw [lastLen, chainLen_cons]
    split <;> omega

theorem lastLen_eq_zero {l : List Seg} (h : lastLen l = 0) : chainLen l = 0 := by
  induction l with
  | nil => rfl
  | cons s rest ih =>
    rw [lastLen] at h
    split at h
    · rename_i hrest
      rw [chainLen_cons, h, ih hrest]
    · contradiction

theorem lastLen_append (before : List Seg) {s : Seg} (after : List Seg) (h : 0 < s.dataLen.toNat) :
    lastLen (before ++ s :: after) =
      if lastLen after = 0 then s.dataLen.toNat else lastLen after := by
  induction before with
  | nil => rfl
  | cons b before ih =>
    have hpos : lastLen (before ++ s :: after) ≠ 0 := by
      rw [ih]
      split <;> omega
    rw [cons_append, lastLen, if_neg hpos, ih]

theorem segs_setSeg {before after : List Seg} {s : Seg} (s' : Seg)
    (h : m.segs = before ++ s :: after) :
    (m.setSeg before.length s').segs = before ++ s' :: after := by
  have hset : (m.setSeg before.length s').segs = m.segs.set before.length s' := by
    cases before <;> rfl
  rw [hset, h]
  simp

theorem segs_last :
    ∃ before, m.segs = before ++ [m.lastseg] ∧ before.length = m.rest.length := by
  rcases eq_nil_or_concat m.rest with hr | ⟨l, s, hr⟩
  · exact ⟨[], by simp [Mbuf.segs, Mbuf.lastseg, hr], by simp [hr]⟩
  · exact ⟨m.first :: l, by simp [Mbuf.segs, Mbuf.lastseg, hr], by simp [hr]⟩

/-! ## Ethernet padding -/

def PaddingRemoved (d : Dpdk) (m : Mbuf) (v : IpVersion) : Prop :=
  (v.hdrLen m.first.buf (m.first.mtod + 14) ≤ v.announced m.first.buf (m.first.mtod + 14) →
    (removeEthernetPadding d m).pktLen.toNat =
      min m.pktLen.toNat (14 + v.announced m.first.buf (m.first.mtod + 14))) ∧
  (v.announced m.first.buf (m.first.mtod + 14) < v.hdrLen m.first.buf (m.first.mtod + 14) →
    removeEthernetPadding d m = m)

def excess (pktLen announced : Nat) : Nat := (131072 + pktLen - 14 - announced) % 65536

section Padding

variable {d : Dpdk} {m : Mbuf} {v : IpVersion}

theorem announced_lt (v : IpVersion) (b : Nat → UInt8) (ip : Nat) : v.announced b ip < 65576 := by
  have hlt : ∀ a, readBe16 b a < 65536 := fun a => by
    have h0 := (b a).toNat_lt
    have h1 := (b (a + 1)).toNat_lt
    unfold readBe16
    omega
  cases v with
  | v4 => exact lt_of_lt_of_le (hlt (ip + 2)) (by omega)
  | v6 => exact Nat.add_lt_add_right (hlt (ip + 4)) 40

theorem padding_toNat (hp : m.packetType = v.packetType) :
    ((m.pktLen - l2L3Len m) - payloadLenL3 m).toNat = (4294967296 + m.pktLen.toNat - 14 -
      v.announced m.first.buf (m.first.mtod + 14)) % 4294967296 := by
  have hlt := m.pktLen.toNat_lt
  have hann := announced_lt v m.first.buf (m.first.mtod + 14)
  cases v
  all_goals
    simp only [l2L3Len, l3Len, payloadLenL3, hp, IpVersion.packetType, if_true, Bool.false_eq_true,
      if_false, ETHER_HDR_LEN, IPV6_HDR_LEN, UInt32.toNat_sub, UInt32.toNat_add, UInt32.toNat_ofNat',
      ipv4HdrLen_toNat, UInt32.reduceToNat, IpVersion.announced] at hann ⊢
    omega

def Mbuf.trimmed (m : Mbuf) (len : UInt16) : Mbuf :=
  { m.setLast { m.lastseg with dataLen := m.lastseg.dataLen - len } with
    pktLen := m.pktLen - len.toUInt32 }

theorem removeEthernetPadding_eq (hp : m.packetType = v.packetType) (hle : m.pktLen.toNat ≤ 64) :
    ∃ len : UInt16, len.toNat = excess m.pktLen.toNat (v.announced m.first.buf (m.first.mtod + 14)) ∧
      removeEthernetPadding d m =
        if 0 < len.toNat ∧ len.toNat ≤ m.lastseg.dataLen.toNat then m.trimmed len else m := by
  have hlt := announced_lt v m.first.buf (m.first.mtod + 14)
  have hpad := padding_toNat hp
  have hshort : ¬ m.pktLen > RTE_ETHER_MIN_LEN := not_lt.mpr hle
  rw [removeEthernetPadding, if_neg hshort]
  generalize (m.pktLen - l2L3Len m) - payloadLenL3 m = pad at hpad ⊢
  refine ⟨pad.toUInt16, ?_, ?_⟩
  · rw [toNat_toUInt16, hpad, excess]
    omega
  · rw [d.trim_eq]
    by_cases hfit : pad.toUInt16 ≤ m.lastseg.dataLen
    · rw [if_pos hfit, Option.getD_some]
      by_cases hzero : pad.toUInt16 = 0
      · -- trimming nothing gives the packet back
        obtain ⟨before, hsegs, hlen⟩ := segs_last m
        have hself : (m.setLast m.lastseg).segs = m.segs := by
          rw [Mbuf.setLast, ← hlen, segs_setSeg m _ hsegs, hsegs]
        have hsame : m.setLast m.lastseg = m := by
          injection hself with hfirst hrest
          have hkept : m.setLast m.lastseg = { m with
              first := (m.setLast m.lastseg).first, rest := (m.setLast m.lastseg).rest } := by
            unfold Mbuf.setLast Mbuf.setSeg
            split <;> rfl
          rw [hkept, hfirst, hrest]
        simp [hzero, hsame]
      · have hpos : 0 < pad.toUInt16.toNat := by
          rw [pos_iff_ne_zero]
          exact fun h => hzero (UInt16.toNat_inj.mp h)
        have hgt : pad > 0 := by
          rw [toNat_toUInt16] at hpos
          exact lt_of_lt_of_le hpos (mod_le _ _)
        rw [if_pos hgt, if_pos ⟨hpos, UInt16.le_iff_toNat_le.mp hfit⟩]
        rfl
    · rw [if_neg hfit, Option.getD_none, ite_self, if_neg]
      exact fun h => hfit (UInt16.le_iff_toNat_le.mpr h.2)

/-- **Padding is removed as it should be** exactly if the frame is longer than what an admissible
    header announces just when the 16-bit difference is neither zero nor too much to trim. -/
theorem paddingRemoved_iff (hp : m.packetType = v.packetType) (hle : m.pktLen.toNat ≤ 64) :
    PaddingRemoved d m v ↔
      ((v.hdrLen m.first.buf (m.first.mtod + 14) ≤ v.announced m.first.buf (m.first.mtod + 14) ∧
          14 + v.announced m.first.buf (m.first.mtod + 14) < m.pktLen.toNat) ↔
        (0 < excess m.pktLen.toNat (v.announced m.first.buf (m.first.mtod + 14)) ∧
          excess m.pktLen.toNat (v.announced m.first.buf (m.first.mtod + 14)) ≤
            m.lastseg.dataLen.toNat)) := by
  have hlt := announced_lt v m.first.buf (m.first.mtod + 14)
  obtain ⟨len, hlen, heq⟩ := removeEthernetPadding_eq (d := d) hp hle
  have hlen' := hlen
  unfold excess at hlen'
  rw [PaddingRemoved, heq, ← hlen]
  split
  · rename_i htouch
    have hpkt : (m.trimmed len).pktLen.toNat = (4294967296 - len.toNat + m.pktLen.toNat) % 4294967296 := by
      simp only [Mbuf.trimmed, UInt32.toNat_sub, UInt16.toNat_toUInt32]
    have hne : m.trimmed len ≠ m := fun h => by
      rw [h] at hpkt
      omega
    simp only [hpkt, hne, htouch, and_self, iff_true, imp_false]
    omega
  · rename_i hkeep
    simp only [hkeep, iff_false, implies_true, and_true]
    omega

def frame64 (hi lo : UInt8) : Mbuf :=
  ⟨⟨fun i => if i = 14 then 0x45 else if i = 16 then hi else if i = 17 then lo else 0, 2048, 0, 64⟩,
    [], 64, ⟨true, false⟩, 0⟩

theorem paddingRemoved_iff_padded : PaddingRemoved Dpdk.reference (frame64 0 40) .v4 :=
  (paddingRemoved_iff rfl (by decide)).mpr (by decide)

theorem frame64_overlong : (removeEthernetPadding Dpdk.reference (frame64 255 255)).pktLen = 13 ∧
    ¬ PaddingRemoved Dpdk.reference (frame64 255 255) .v4 := by
  have hlen : (removeEthernetPadding Dpdk.reference (frame64 255 255)).pktLen = 13 := by
    decide +kernel
  refine ⟨hlen, fun h => ?_⟩
  have hmin := h.1 (by decide)
  rw [hlen] at hmin
  revert hmin
  decide

end Padding

/-! ## The trailer -/

structure CutEnd (m m' : Mbuf) (n : Nat) : Prop where
  consistent : m'.Consistent
  lengths : List.Forall₂ (fun s' s => s'.dataLen ≤ s.dataLen) m'.segs m.segs
  removed : m'.pktLen.toNat + n = m.pktLen.toNat
  content : m'.content = m.content.take m'.pktLen.toNat

def padLenOf (icv : Nat) : Nat :=
  (m.content[m.pktLen.toNat - (icv + 2)]?.getD 0).toNat

def TailRemoved (d : Dpdk) (m : Mbuf) (icv : IcvLen) : Prop :=
  ∃ code proto m', removePacketTail d m (UInt32.ofNat (getIcvLenInt icv)) = some (code, proto, m') ∧
    (code ≠ .success → m' = removeEthernetPadding d m) ∧
    (code = .success → CutEnd (removeEthernetPadding d m) m'
      (getIcvLenInt icv + 2 + padLenOf (removeEthernetPadding d m) (getIcvLenInt icv)))

theorem walkSegs_eq (segs : List Seg) : ∀ (k : Nat) (offset : UInt32), offset.toNat < chainLen segs →
      ∃ before s after o, segs = before ++ s :: after ∧
      walkSegs segs k offset = some (k + before.length, o) ∧
      chainLen before + o.toNat = offset.toNat ∧ o.toNat < s.dataLen.toNat := by
  induction segs with
  | nil => exact fun _ _ h => absurd h (not_lt_zero _)
  | cons s rest ih =>
    intro k offset h
    rw [chainLen_cons] at h
    rw [walkSegs]
    split
    · rename_i hle
      have hsub := UInt32.toNat_sub_of_le _ _ hle
      rw [UInt16.toNat_toUInt32] at hsub
      rw [le_iff_toNat_le, UInt16.toNat_toUInt32] at hle
      obtain ⟨before, s', after, o, rfl, hwalk, hsum, ho⟩ := ih (k + 1) _ (by rw [hsub]; omega)
      refine ⟨s :: before, s', after, o, rfl, ?_, ?_, ho⟩
      · rw [hwalk, length_cons, add_assoc, add_comm 1]
      · rw [chainLen_cons]
        omega
    · rename_i hlt
      rw [le_iff_toNat_le, UInt16.toNat_toUInt32] at hlt
      exact ⟨[], s, rest, offset, rfl, rfl, Nat.zero_add _, Nat.lt_of_not_le hlt⟩

section Tail

variable {d : Dpdk} {m : Mbuf} {icv : IcvLen}

theorem mbufGetSegOfs_of_lt (hm : m.Consistent) {offset : UInt32} (h : offset < m.pktLen) :
    ∃ before s after o, m.segs = before ++ s :: after ∧
      mbufGetSegOfs m offset = some (.ok (before.length, o)) ∧
      chainLen before + o.toNat = offset.toNat ∧ o.toNat < s.dataLen.toNat := by
  have hlt : offset.toNat < chainLen m.segs := hm ▸ UInt32.lt_iff_toNat_lt.mp h
  obtain ⟨before, s, after, o, hsegs, hwalk, hsum, ho⟩ := walkSegs_eq m.segs 0 offset hlt
  rw [zero_add] at hwalk
  refine ⟨before, s, after, o, hsegs, ?_, hsum, ho⟩
  rw [mbufGetSegOfs, if_neg (UInt32.not_le.mpr h)]
  exact congrArg (Option.map Except.ok) hwalk

/-- **Segment lookup is exact**: it fails at the end of the packet and behind it, and finds the segment
    and the offset in it of every other byte. -/
theorem segment_lookup_exact (hm : m.Consistent) (offset : UInt32) :
    ((∃ code, mbufGetSegOfs m offset = some (.error code)) ↔ m.pktLen ≤ offset) ∧
      (offset < m.pktLen → ∃ before s after o, m.segs = before ++ s :: after ∧
        mbufGetSegOfs m offset = some (.ok (before.length, o)) ∧
        o.toNat < s.dataLen.toNat ∧ chainLen before + o.toNat = offset.toNat) := by
  rcases UInt32.lt_or_le offset m.pktLen with hlt | hge
  · obtain ⟨before, s, after, o, hsegs, hfind, hsum, ho⟩ := mbufGetSegOfs_of_lt hm hlt
    refine ⟨iff_of_false ?_ (UInt32.not_le.mpr hlt), fun _ => ?_⟩
    · rw [hfind]
      rintro ⟨_, ⟨⟩⟩
    · exact ⟨before, s, after, o, hsegs, hfind, ho, hsum⟩
  · refine ⟨iff_of_true ⟨_, if_pos hge⟩ hge, fun hlt => ?_⟩
    exact absurd hge (UInt32.not_le.mpr hlt)

theorem removeEthernetPadding_consistent (hm : m.Consistent) : (removeEthernetPadding d m).Consistent := by
  unfold removeEthernetPadding
  split
  · exact hm
  split
  · rw [d.trim_eq]
    split
    · rename_i hle
      obtain ⟨before, hsegs, hlen⟩ := segs_last m
      have hm' := hm
      rw [Mbuf.Consistent, hsegs] at hm'
      rw [Option.getD_some, Mbuf.Consistent]
      show _ = chainLen (m.setSeg m.rest.length _).segs
      rw [← hlen, segs_setSeg m _ hsegs]
      have hsub := UInt16.toNat_sub_of_le _ _ hle
      have hlt := m.pktLen.toNat_lt
      rw [UInt16.le_iff_toNat_le] at hle
      simp only [chainLen_append, chainLen_cons, chainLen_nil] at hm' ⊢
      rw [hsub, UInt32.toNat_sub, UInt16.toNat_toUInt32]
      omega
    · exact hm
  · exact hm

theorem content_getElem? {before after : List Seg} {s : Seg} {o : Nat}
    (hsegs : m.segs = before ++ s :: after) (ho : o < s.dataLen.toNat) :
    m.content[chainLen before + o]? = some (s.buf (s.mtod + o)) := by
  have hin : o < s.data.length := by rwa [Seg.data, load_length]
  rw [Mbuf.content, hsegs, flatMap_append, flatMap_cons,
    getElem?_append_right (by rw [flatMap_data_length]; omega), flatMap_data_length,
    Nat.add_sub_cancel_left, getElem?_append_left hin, getElem?_eq_getElem hin]
  exact congrArg some (load_getElem _ _ _ _ hin)

theorem cutEnd_of_last {m' : Mbuf} {before after : List Seg} {s : Seg} {len : UInt16} {n : Nat}
    (hm : m.Consistent) (hsegs : m.segs = before ++ s :: after) (hafter : chainLen after = 0)
    (hsegs' : m'.segs = before ++ { s with dataLen := len } :: after)
    (hlen : len.toNat + n = s.dataLen.toNat) (hpkt : m'.pktLen.toNat + n = m.pktLen.toNat) :
    CutEnd m m' n := by
  have hm' := hm
  rw [Mbuf.Consistent, hsegs] at hm'
  simp only [chainLen_append, chainLen_cons] at hm'
  have hdata : Seg.data { s with dataLen := len } = s.data.take len.toNat := by
    simp only [Seg.data, load, ← map_take, take_range]
    rw [min_eq_left (by omega)]
    rfl
  have hnil : after.flatMap Seg.data = [] := eq_nil_of_length_eq_zero (by
    rw [flatMap_data_length, hafter])
  refine ⟨?_, ?_, hpkt, ?_⟩
  · rw [Mbuf.Consistent, hsegs']
    simp only [chainLen_append, chainLen_cons]
    omega
  · rw [hsegs, hsegs']
    have hsame : ∀ l : List Seg, List.Forall₂ (fun s' s : Seg => s'.dataLen ≤ s.dataLen) l l :=
      fun l => List.forall₂_same.mpr fun _ _ => UInt16.le_refl _
    have hle : len ≤ s.dataLen := UInt16.le_iff_toNat_le.mpr (by omega)
    exact rel_append (hsame before) (.cons hle (hsame after))
  · have hcut : m'.pktLen.toNat = (before.flatMap Seg.data).length + len.toNat := by
      rw [flatMap_data_length]
      omega
    rw [Mbuf.content, Mbuf.content, hsegs, hsegs', flatMap_append, flatMap_append,
      flatMap_cons, flatMap_cons, hnil, hdata, append_nil, append_nil, hcut,
      take_length_add_append]

/-- **Exactly the trailer is removed** if and only if the packet is too short to have one, or the
    last segment with data holds all of it. -/
theorem tailRemoved_iff (hm : m.Consistent) : TailRemoved d m icv ↔
      (removeEthernetPadding d m).pktLen.toNat < getIcvLenInt icv + 2 ∨
        getIcvLenInt icv + 2 + padLenOf (removeEthernetPadding d m) (getIcvLenInt icv) ≤
          lastLen (removeEthernetPadding d m).segs := by
  have hm₁ := removeEthernetPadding_consistent (d := d) hm
  unfold TailRemoved removePacketTail
  generalize removeEthernetPadding d m = m₁ at hm₁ ⊢
  have hlt := m₁.pktLen.toNat_lt
  have hicv := getIcvLenInt_le icv
  generalize getIcvLenInt icv = n at hicv ⊢
  have htrailer : (ofNat n + ESP_TAIL_LEN).toNat = n + 2 := by
    simp only [ESP_TAIL_LEN, UInt32.toNat_add, UInt32.toNat_ofNat', UInt32.reduceToNat]
    omega
  generalize UInt32.ofNat n + ESP_TAIL_LEN = trailer at htrailer ⊢
  have hoff : (m₁.pktLen - trailer).toNat = (4294967296 - (n + 2) + m₁.pktLen.toNat) % 4294967296 := by
    rw [UInt32.toNat_sub, htrailer]
  rcases lt_or_ge m₁.pktLen.toNat (n + 2) with hshort | hlong
  · have hge : m₁.pktLen - trailer ≥ m₁.pktLen := by
      rw [ge_iff_le, le_iff_toNat_le]
      omega
    simp only [mbufGetSegOfs, if_pos hge, hshort, true_or, iff_true]
    exact ⟨_, _, _, rfl, fun _ => rfl, by simp⟩
  · have hge : ¬ m₁.pktLen - trailer ≥ m₁.pktLen := by
      rw [ge_iff_le, le_iff_toNat_le]
      omega
    have hm' := hm₁
    rw [Mbuf.Consistent] at hm'
    obtain ⟨before, s, after, o, hsegs, hfind, hsum, ho⟩ :=
      mbufGetSegOfs_of_lt hm₁ (UInt32.not_le.mp hge)
    have hseg : m₁.seg before.length = some s := by
      show m₁.segs[before.length]? = _
      rw [hsegs]
      simp
    have hpad : (s.buf (s.mtod + o.toNat)).toNat = padLenOf m₁ n := by
      have hat : m₁.pktLen.toNat - (n + 2) = chainLen before + o.toNat := by omega
      rw [padLenOf, hat, content_getElem? hsegs ho]
      rfl
    have hpad' := (s.buf (s.mtod + o.toNat)).toNat_lt
    simp only [hfind, hseg, Option.bind_eq_bind, Option.bind_some]
    have hset := segs_setSeg m₁
      { s with dataLen := (o - (s.buf (s.mtod + o.toNat)).toUInt32).toUInt16 } hsegs
    have hlen : (o - (s.buf (s.mtod + o.toNat)).toUInt32).toUInt16.toNat =
        (4294967296 - padLenOf m₁ n + o.toNat) % 4294967296 % 65536 := by
      rw [UInt32.toNat_toUInt16, UInt32.toNat_sub, UInt8.toNat_toUInt32, hpad]
    have hpkt : (m₁.pktLen - (trailer + (s.buf (s.mtod + o.toNat)).toUInt32)).toNat =
        (4294967296 - (n + 2 + padLenOf m₁ n) + m₁.pktLen.toNat) % 4294967296 := by
      rw [UInt32.toNat_sub, UInt32.toNat_add, UInt8.toNat_toUInt32, hpad, htrailer,
        mod_eq_of_lt (show n + 2 + padLenOf m₁ n < 2 ^ 32 by omega)]
    have hs := s.dataLen.toNat_lt
    have hlast := lastLen_append before after (show 0 < s.dataLen.toNat by omega)
    rw [hsegs] at hm' ⊢
    rw [hlast]
    simp only [chainLen_append, chainLen_cons] at hm'
    constructor
    · rintro ⟨_, _, _, h, -, hcut⟩
      cases h
      have hcons := (hcut rfl).consistent
      rw [Mbuf.Consistent, hpkt] at hcons
      replace hcons := hcons.trans (congrArg chainLen hset)
      simp only [chainLen_append, chainLen_cons, hlen] at hcons
      right
      split
      · rename_i hz
        have := lastLen_eq_zero hz
        omega
      · have := lastLen_le after
        omega
    · intro h
      have hle : padLenOf m₁ n ≤ o.toNat ∧ chainLen after = 0 := by
        split at h
        · rename_i hz
          have := lastLen_eq_zero hz
          omega
        · have := lastLen_le after
          omega
      refine ⟨_, _, _, rfl, fun h => absurd rfl h, fun _ => ?_⟩
      exact cutEnd_of_last hm₁ hsegs hle.2 hset (by rw [hlen]; omega) (by rw [hpkt]; omega)

def zeroChain (a b : UInt16) : Mbuf :=
  ⟨⟨fun _ => 0, 2048, 0, a⟩, [⟨fun _ => 0, 2048, 0, b⟩], a.toUInt32 + b.toUInt32, ⟨true, false⟩, 0⟩

theorem segment_lookup_exact_end : ∃ code, mbufGetSegOfs (zeroChain 10 100) 110 = some (.error code) :=
  (segment_lookup_exact (by decide +kernel) 110).1.mpr (by decide)

theorem tailRemoved_iff_last : TailRemoved Dpdk.reference (zeroChain 10 100) .length16 :=
  (tailRemoved_iff (by decide +kernel)).mpr (.inr (by decide +kernel))

/-- A trailer that starts in the first of two segments: the second one keeps its data. -/
theorem zeroChain_straddled : (zeroChain 100 10).Consistent ∧
    (removePacketTail Dpdk.reference (zeroChain 100 10) 16).map
        (fun r => (r.1, r.2.2.pktLen, r.2.2.segs.map (·.dataLen))) =
      some (.success, 92, [92, 10]) := by
  decide +kernel

end Tail

end Doca.IpsecGw
