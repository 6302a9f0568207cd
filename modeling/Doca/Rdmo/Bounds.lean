import Doca.Rdmo.Requests

/-!
# RDMO worker: destinations

The bounds checks of append and scatter add a 64-bit address and a length before they compare.

* `Accepted` — it passed the bounds check of the region registered under its key.
* `NoWrap` — the sum of address and length is not reduced modulo 2^64, or it is exactly the end of a
  region that ends at 2^64.

Principal result: `destinations_inside_iff`.
-/

namespace Doca.Rdmo

open Doca.Lib QState

structure Accepted (host : Host) (x : Write) : Prop where
  named : Named x
  known : host.mkeys x.req.client x.rkey = some x.mkey
  bounds : outOfBounds x.mkey x.addr x.len = false

/-- All destinations were accepted, and the memory keys in the contexts of the requests are those of
    their pointers. -/
structure Sound (host : Host) (s : Worker) : Prop where
  writes : ∀ x ∈ s.writes, Accepted host x
  mkeys : ∀ q m, (s.ctx q).mkey = some m →
    ∃ h, q.body.op = .append h ∧ host.mkeys q.client h.ptrRkey = some m

section Sound

variable {host : Host} {s : Worker} {r : Request}

theorem Sound.idle (host : Host) : Sound host Worker.idle :=
  ⟨fun _ hx => (nomatch hx), fun _ _ hm => (nomatch hm)⟩

section

variable (h : Sound host s)

include h

theorem Sound.write {x : Write} (hx : Accepted host x) : Sound host (s.write x) := by
  refine ⟨fun y hy => ?_, h.mkeys⟩
  rcases List.mem_append.mp hy with hy | hy
  · exact h.writes y hy
  · exact List.mem_singleton.mp hy ▸ hx

theorem Sound.setCtx {x : Ctx} (hx : ∀ m, x.mkey = some m →
    ∃ h, r.body.op = .append h ∧ host.mkeys r.client h.ptrRkey = some m) :
    Sound host (s.setCtx r x) := by
  refine ⟨h.writes, fun q m hm => ?_⟩
  by_cases hq : q = r
  · subst hq
    simp only [Worker.setCtx, Function.update_self] at hm
    exact hx m hm
  · simp only [Worker.setCtx, Function.update_of_ne hq] at hm
    exact h.mkeys q m hm

theorem Sound.setStage (r : Request) (stage : Nat) (val : UInt64) :
    Sound host (s.setCtx r ⟨stage, val, (s.ctx r).mkey⟩) :=
  h.setCtx fun m hm => h.mkeys r m hm

end

theorem Sound.accepted (h : Sound host s) {x : Write} (hx : Checked host r s x) : Accepted host x := by
  obtain ⟨hreq, hnamed, hbounds, hknown⟩ := hx
  refine ⟨hnamed, ?_, hbounds⟩
  rw [hreq]
  obtain hknown | ⟨hdr, hop, hkey, hm⟩ := hknown
  · exact hknown
  · obtain ⟨hdr', hop', hknown⟩ := h.mkeys r _ hm
    rw [hop] at hop'
    cases hop'
    rw [← hkey]
    exact hknown

theorem Sound.steps (host : Host) (r : Request) : Steps host r (Sound host) where
  tick h := ⟨h.writes, h.mkeys⟩
  issue _ h := ⟨h.writes, h.mkeys⟩
  setCache _ h := ⟨h.writes, h.mkeys⟩
  fault h := ⟨h.writes, h.mkeys⟩
  setCtx h hx := h.setCtx fun m hm => by
    obtain hsame | ⟨hdr, hop, hkey⟩ := hx
    · exact h.mkeys r m (hsame ▸ hm)
    · exact ⟨hdr, hop, hkey.trans hm⟩
  write h hx := h.write (h.accepted hx)
  respond _ h := ⟨h.writes, h.mkeys⟩

theorem Sound.opsTable (h : Sound host s) (r : Request) (pause : Bool) :
    Sound host (opsTable host r pause s).inner :=
  opsTable_kept (Sound.steps host r) (fun _ h => ⟨h.writes, h.mkeys⟩) h

theorem Sound.completed (h : Sound host s) (p : Pending) (v : UInt64) : Sound host (s.completed p v) := by
  have herase : Sound host { s with pending := s.pending.erase p } := ⟨h.writes, h.mkeys⟩
  unfold Worker.completed
  dsimp only
  split
  · exact herase.setStage p.req _ v
  · exact herase.setStage p.req _ _
  · exact herase

end Sound

theorem reach_sound {host : Host} {w : WState}
    (h : Reach (workerStep host) WEnabled WState.idle w) : Sound host w.inner := by
  have hcall : ∀ {r : Request} {w : WState}, Sound host w.inner →
      Sound host (settle r (progress (opsProgress host) r w)).inner := fun {r w} hw => by
    rw [settle_inner]
    exact ⟨(hw.opsTable r _).writes, (hw.opsTable r _).mkeys⟩
  refine (worker_rule (J := fun w => Sound host w.inner) (fun _ _ he => he) ⟨fun _ _ _ hw => hw,
    fun hw _ _ => hcall hw⟩ .idle (Sound.idle host) (fun w p v _ hw _ => ?_) h).2
  exact hcall (hw.completed p v)

/-! ## The corner of the check -/

def Inside (m : Mkey) (x : Write) : Prop :=
  m.va.toNat ≤ x.addr.toNat ∧ x.addr.toNat + x.len.toNat ≤ m.va.toNat + m.len.toNat

def NoWrap (m : Mkey) (x : Write) : Prop :=
  x.addr.toNat + x.len.toNat < 2 ^ 64 ∨
    (x.addr.toNat + x.len.toNat = 2 ^ 64 ∧ m.va.toNat + m.len.toNat = 2 ^ 64)

def RegionsFit (host : Host) : Prop :=
  ∀ c k m, host.mkeys c k = some m → m.va.toNat + m.len.toNat ≤ 2 ^ 64

theorem inside_iff_noWrap {m : Mkey} {x : Write} (hfit : m.va.toNat + m.len.toNat ≤ 2 ^ 64)
    (hbounds : outOfBounds m x.addr x.len = false) : Inside m x ↔ NoWrap m x := by
  simp only [outOfBounds, Bool.or_eq_false_iff, decide_eq_false_iff_not, UInt64.lt_iff_toNat_lt,
    gt_iff_lt, UInt64.toNat_add, Nat.not_lt] at hbounds
  obtain ⟨hva, hend⟩ := hbounds
  have haddr := x.addr.toNat_lt
  have hlen := x.len.toNat_lt
  unfold Inside NoWrap
  omega

/-- **A destination lies in the region of the key named for it exactly if its end does not wrap.** -/
theorem destinations_inside_iff {host : Host} {w : WState} (hfit : RegionsFit host)
    (h : Reach (workerStep host) WEnabled WState.idle w) :
    ∀ x ∈ w.inner.writes, Named x ∧ ∃ m, host.mkeys x.req.client x.rkey = some m ∧
      (Inside m x ↔ NoWrap m x) := by
  intro x hx
  have hx := (reach_sound h).writes x hx
  exact ⟨hx.named, x.mkey, hx.known, inside_iff_noWrap (hfit _ _ _ hx.known) hx.bounds⟩

def scatterOne (addr : UInt64) (len : UInt16) : Msg :=
  ⟨0, 2, 0, 20, 0, 0, ⟨0, 0, 0⟩, ⟨[⟨addr, 7, len⟩], by simp⟩, false, 0⟩

theorem lowRegion_fits (ucx : UcxCall → Nat → UcsStatus) : RegionsFit (Host.plain lowRegion ucx) := by
  intro c k m hm
  simp only [Host.plain, lowRegion] at hm
  split at hm
  · cases hm
    decide
  · cases hm

theorem destinations_inside_iff_within :
    ∃ w, Reach (workerStep (Host.plain lowRegion fun _ _ => .ok)) WEnabled WState.idle w ∧
      ∃ x ∈ w.inner.writes, x.addr = 4100 ∧ Inside ⟨7, false, 4096, 4096⟩ x := by
  have hreach : Reach (workerStep (Host.plain lowRegion fun _ _ => .ok)) WEnabled WState.idle _ :=
    .of_run (l := [.message (scatterOne 4100 16) true]) .init rfl
  obtain ⟨-, m, hm, hiff⟩ := destinations_inside_iff (lowRegion_fits _) hreach _ (List.mem_singleton.mpr rfl)
  cases hm
  exact ⟨_, hreach, _, List.mem_singleton.mpr rfl, rfl, hiff.mpr (Or.inl (by decide))⟩

/-- **A descriptor at the end of the address space passes the check**, and 16 bytes are put there. -/
theorem destination_wraps :
    ∃ w, Reach (workerStep (Host.plain lowRegion fun _ _ => .ok)) WEnabled WState.idle w ∧
      RegionsFit (Host.plain lowRegion fun _ _ => .ok) ∧
      ∃ x ∈ w.inner.writes, ∃ m, lowRegion x.rkey = some m ∧ x.addr.toNat = 2 ^ 64 - 1 ∧
        x.len = 16 ∧ ¬ Inside m x := by
  refine ⟨_, .of_run (l := [.message (scatterOne (0 - 1) 16) true]) .init rfl, lowRegion_fits _, _,
    List.mem_singleton.mpr rfl, _, rfl, by decide, rfl, ?_⟩
  unfold Inside
  decide

end Doca.Rdmo
