import Doca.Lib.Bytes

/-!
# All-to-all: the exchange of handles

Before the first round the ranks exchange what their kernels need (`create_dpa_a2a_events` and
`prepare_dpa_a2a_memory` of `dpa_all_to_all_core.c`): every rank exports its `num_ranks` kernel events
and the mapping of its receive buffer, and imports those of the others.

* `lpExportData`, `allToAll`, `rpExportData` — the buffers of the exchange, byte by byte.
* `rpKernelEvents`, `exportMmaps` — the imported handles.

Principal results: `rpKernelEvents_eq`; `exportMmaps_eq` — mapping `i` is that of the receive buffer of
rank `i`.
-/

namespace Doca.DpaAllToAll

open Doca.Lib

structure EventHandle where
  rank : Nat
  index : Nat
  deriving DecidableEq

/-- `doca_sync_event_export_to_remote_net`, `doca_mmap_export_rdma` and the calls that open what
they export, for `numRanks` ranks. -/
structure Exports (numRanks : Nat) where
  event : Nat → Nat → List UInt8
  eventSize : Nat
  event_length : ∀ r < numRanks, ∀ j < numRanks, (event r j).length = eventSize
  openEvent : List UInt8 → EventHandle
  openEvent_event : ∀ r < numRanks, ∀ j < numRanks, openEvent (event r j) = ⟨r, j⟩
  mmap : Nat → List UInt8
  mmapSize : Nat
  mmap_length : ∀ r < numRanks, (mmap r).length = mmapSize
  openMmap : List UInt8 → Nat
  openMmap_mmap : ∀ r < numRanks, openMmap (mmap r) = r

namespace Exports

variable {numRanks : Nat} (E : Exports numRanks)

def calloc : Nat → UInt8 := fun _ => 0

def lpExportSizes (r j : Nat) : Nat := (E.event r j).length

def lpExportData (r : Nat) : Nat → UInt8 :=
  storeBlocks calloc (fun j => j * E.lpExportSizes r j) (E.event r) numRanks

/-- `rp_remote_kernel_events_export_sizes` of rank `r`, after the exchange of the sizes. -/
def rpExportSizes (r i : Nat) : Nat := E.lpExportSizes i r

def allToAll (n : Nat) (send : Nat → Nat → UInt8) (sendCount : Nat → Nat) (r recvCount : Nat) :
    Nat → UInt8 :=
  storeBlocks calloc (fun i => i * recvCount) (fun i => load (send i) (r * sendCount i) (sendCount i)) n

def rpExportData (r : Nat) : Nat → UInt8 :=
  allToAll numRanks E.lpExportData (fun i => E.lpExportSizes i 0) r (E.rpExportSizes r 0)

def rpKernelEvents (r i : Nat) : EventHandle :=
  E.openEvent (load (E.rpExportData r) (i * E.rpExportSizes r i) (E.rpExportSizes r i))

def mmapExportsLens (i : Nat) : Nat := (E.mmap i).length

/-- `recvbufs_mmap_exports` of rank `r`: `MPI_Iallgather` with the size of its own export. -/
def mmapExports (r : Nat) : Nat → UInt8 :=
  storeBlocks calloc (fun i => i * (E.mmap r).length) E.mmap numRanks

def exportMmaps (r i : Nat) : Nat :=
  E.openMmap (load (E.mmapExports r) (i * (E.mmap r).length) (E.mmapExportsLens i))

variable {r i j : Nat}

theorem load_lpExportData (hr : r < numRanks) (hj : j < numRanks) :
    load (E.lpExportData r) (j * E.eventSize) E.eventSize = E.event r j := by
  apply load_storeBlocks _ hj
  intro k hk
  have hlen := E.event_length r hr k hk
  exact ⟨by rw [lpExportSizes, hlen], hlen⟩

theorem load_rpExportData (hr : r < numRanks) (hi : i < numRanks) :
    load (E.rpExportData r) (i * E.eventSize) E.eventSize = E.event i r := by
  have hpos : 0 < numRanks := by omega
  have hblock : load (E.rpExportData r) (i * E.eventSize) E.eventSize =
      load (E.lpExportData i) (r * E.lpExportSizes i 0) (E.lpExportSizes i 0) := by
    apply load_storeBlocks _ hi
    intro k hk
    have hlen := E.event_length 0 hpos r hr
    refine ⟨by rw [rpExportSizes, lpExportSizes, hlen], ?_⟩
    rw [load_length]
    exact E.event_length k hk 0 hpos
  rw [hblock, lpExportSizes, E.event_length i hi 0 hpos, E.load_lpExportData hi hr]

/-- **Rank `r` signals at rank `i` the event that rank `i` keeps for rank `r`.** -/
theorem rpKernelEvents_eq (hr : r < numRanks) (hi : i < numRanks) : E.rpKernelEvents r i = ⟨i, r⟩ := by
  rw [rpKernelEvents, rpExportSizes, lpExportSizes, E.event_length i hi r hr,
    E.load_rpExportData hr hi, E.openEvent_event i hi r hr]

theorem exportMmaps_eq (hr : r < numRanks) (hi : i < numRanks) : E.exportMmaps r i = i := by
  have hlen := E.mmap_length r hr
  have hload : load (E.mmapExports r) (i * E.mmapSize) E.mmapSize = E.mmap i := by
    apply load_storeBlocks _ hi
    intro k hk
    exact ⟨by rw [hlen], E.mmap_length k hk⟩
  rw [exportMmaps, mmapExportsLens, hlen, E.mmap_length i hi, hload, E.openMmap_mmap i hi]

end Exports

end Doca.DpaAllToAll
