import Doca.Common.Error
import Mathlib

/-!
# The shadow of a mempool

`dpdk_mempool_shadow_create`, `dpdk_mempool_shadow_create_extbuf` and
`dpdk_mempool_shadow_find_buf_by_data` of `common/dpdk_utils.c`: an mmap for every chunk of memory, and
the search for the mmap of a range.  A shadow is the list of its mmaps.

Principal result: `shadow_find_iff`.
-/

namespace Doca.Common

/-- The mmap for the chunk `[addr, addr + len)`, with the answers of the calls that register it. -/
structure Mmap where
  addr : UInt64
  len : UInt64
  create : DocaError
  setMemrange : DocaError
  addDev : DocaError
  start : DocaError
  fits : addr.toNat + len.toNat < 2 ^ 64

/-- `dpdk_ext_chunk_to_mmap`; `dpdk_chunk_to_mmap_cb` does the same and returns nothing. -/
def dpdkExtChunkToMmap (shadow : List Mmap) (m : Mmap) : DocaError × List Mmap :=
  if m.create ≠ .success then (m.create, shadow)
  else if m.setMemrange ≠ .success then (m.setMemrange, shadow)
  else if m.addDev ≠ .success then (m.addDev, shadow)
  else if m.start ≠ .success then (m.start, shadow)
  else (.success, shadow ++ [m])

def dpdkMempoolShadowCreate (chunks : List Mmap) : Option (List Mmap) :=
  let shadow := chunks.foldl (fun shadow m => (dpdkExtChunkToMmap shadow m).2) []
  if chunks.length ≠ shadow.length then none else some shadow

/-- The loop of `dpdk_mempool_shadow_create_extbuf`, which starts with an empty shadow. -/
def dpdkMempoolShadowCreateExtbuf (shadow : List Mmap) : List Mmap → Option (List Mmap)
  | [] => some shadow
  | m :: rest =>
    match dpdkExtChunkToMmap shadow m with
    | (.success, shadow) => dpdkMempoolShadowCreateExtbuf shadow rest
    | _ => none

def Mmap.has (memRangeStart memRangeSize : UInt64) (m : Mmap) : Bool :=
  m.addr ≤ memRangeStart && memRangeStart < m.addr + m.len && memRangeSize ≤ m.addr + m.len - memRangeStart

/-- `dpdk_mempool_shadow_find_buf_by_data`: the mmap that the inventory is asked for. -/
def dpdkMempoolShadowFindBufByData (shadow : List Mmap) (memRangeStart memRangeSize : UInt64) :
    Option Mmap :=
  shadow.find? (Mmap.has memRangeStart memRangeSize)

def Mmap.Succeeds (m : Mmap) : Prop :=
  m.create = .success ∧ m.setMemrange = .success ∧ m.addDev = .success ∧ m.start = .success

def Mmap.bytes (m : Mmap) : Set Nat := Set.Ico m.addr.toNat (m.addr.toNat + m.len.toNat)

theorem dpdkExtChunkToMmap_eq {m : Mmap} (h : m.Succeeds) (shadow : List Mmap) :
    dpdkExtChunkToMmap shadow m = (.success, shadow ++ [m]) := by
  obtain ⟨hcreate, hrange, hdev, hstart⟩ := h
  simp [dpdkExtChunkToMmap, hcreate, hrange, hdev, hstart]

theorem create_loops {chunks : List Mmap} (h : ∀ m ∈ chunks, m.Succeeds) (shadow : List Mmap) :
    chunks.foldl (fun shadow m => (dpdkExtChunkToMmap shadow m).2) shadow = shadow ++ chunks ∧
      dpdkMempoolShadowCreateExtbuf shadow chunks = some (shadow ++ chunks) := by
  induction chunks generalizing shadow with
  | nil => simp [dpdkMempoolShadowCreateExtbuf]
  | cons m rest ih =>
    have hm := dpdkExtChunkToMmap_eq (h m List.mem_cons_self) shadow
    obtain ⟨hfold, hext⟩ := ih (fun m hm => h m (List.mem_cons_of_mem _ hm)) (shadow ++ [m])
    simp [dpdkMempoolShadowCreateExtbuf, hm, hfold, hext]

theorem Mmap.has_iff (m : Mmap) {start size : UInt64} (hsize : 1 ≤ size) :
    m.has start size = true ↔ Set.Ico start.toNat (start.toNat + size.toNat) ⊆ m.bytes := by
  have hfits := m.fits
  have hpos : 1 ≤ size.toNat := UInt64.le_iff_toNat_le.mp hsize
  have hend : (m.addr + m.len).toNat = m.addr.toNat + m.len.toNat := by
    rw [UInt64.toNat_add, Nat.mod_eq_of_lt hfits]
  have hroom : start.toNat < m.addr.toNat + m.len.toNat →
      (m.addr + m.len - start).toNat = m.addr.toNat + m.len.toNat - start.toNat := by
    intro hlt
    rw [UInt64.toNat_sub_of_le _ _ (UInt64.le_iff_toNat_le.mpr (by omega)), hend]
  rw [Mmap.bytes, Set.Ico_subset_Ico_iff (by omega), Mmap.has]
  simp only [Bool.and_eq_true, decide_eq_true_eq, UInt64.le_iff_toNat_le, UInt64.lt_iff_toNat_lt, hend]
  constructor
  · rintro ⟨⟨hle, hlt⟩, hsize⟩
    rw [hroom hlt] at hsize
    omega
  · rintro ⟨hle, hin⟩
    rw [hroom (by omega)]
    omega

/-- **Shadow lookup is exact.**  With an mmap for every chunk, of a mempool or of external memory, the
    search asks for a buffer of an mmap exactly if its chunk has the range. -/
theorem shadow_find_iff {chunks : List Mmap} (h : ∀ m ∈ chunks, m.Succeeds)
    (hdisj : Set.PairwiseDisjoint {m | m ∈ chunks} Mmap.bytes) :
    dpdkMempoolShadowCreate chunks = some chunks ∧ dpdkMempoolShadowCreateExtbuf [] chunks = some chunks ∧
      ∀ start size : UInt64, 1 ≤ size → ∀ m, dpdkMempoolShadowFindBufByData chunks start size = some m ↔
          m ∈ chunks ∧ Set.Ico start.toNat (start.toNat + size.toNat) ⊆ m.bytes := by
  obtain ⟨hfold, hext⟩ := create_loops h []
  refine ⟨?_, hext, fun start size hsize m => ⟨fun hfind => ?_, ?_⟩⟩
  · simp [dpdkMempoolShadowCreate, hfold]
  · exact ⟨List.mem_of_find?_eq_some hfind, (m.has_iff hsize).mp (List.find?_some hfind)⟩
  · rintro ⟨hm, hin⟩
    obtain ⟨m', hfind⟩ := Option.isSome_iff_exists.mp
      (List.find?_isSome.mpr ⟨m, hm, (m.has_iff hsize).mpr hin⟩)
    refine hfind.trans (congrArg some ?_)
    -- no other chunk has the first byte
    by_contra hne
    have hin' := (m'.has_iff hsize).mp (List.find?_some hfind)
    have hfirst : start.toNat ∈ Set.Ico start.toNat (start.toNat + size.toNat) :=
      ⟨Nat.le_refl _, Nat.lt_add_of_pos_right (UInt64.le_iff_toNat_le.mp hsize)⟩
    exact Set.disjoint_left.mp (hdisj (List.mem_of_find?_eq_some hfind) hm hne) (hin' hfirst) (hin hfirst)

theorem shadow_find_iff_neighbours :
    let low : Mmap := ⟨-17, 8, .success, .success, .success, .success, by decide⟩
    let high : Mmap := ⟨-9, 8, .success, .success, .success, .success, by decide⟩
    dpdkMempoolShadowFindBufByData [low, high] (-9) 8 = some high := by
  intro low high
  have hdisj : Set.PairwiseDisjoint {m | m ∈ [low, high]} Mmap.bytes := by
    intro a ha b hb hne
    refine Set.Ico_disjoint_Ico.mpr ?_
    simp only [Set.mem_ofPred_eq, List.mem_cons, List.not_mem_nil, or_false] at ha hb
    rcases ha with rfl | rfl
    · rcases hb with rfl | rfl
      · exact absurd rfl hne
      · decide
    · rcases hb with rfl | rfl
      · decide
      · exact absurd rfl hne
  exact ((shadow_find_iff (by simp [low, high, Mmap.Succeeds]) hdisj).2.2 _ _ (by decide) _).mpr
    ⟨by simp, Set.Ico_subset_Ico (by decide) (by decide)⟩

end Doca.Common
