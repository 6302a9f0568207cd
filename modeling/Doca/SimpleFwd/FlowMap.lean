import Doca.SimpleFwd.FlowTable
import Mathlib.Algebra.BigOperators.Group.Finset.Piecewise

/-!
# The flow table as a map

The flow table without its times and counters is a table of slots that changes by additions and removals
only, and over any run it is a map from keys to the flows that were added and not removed.

* `Table`, `Table.insert`, `Table.delete` — the table of slots; `Table.Inv` and its preservation.
* `Ft.view` — the slots of a flow table; `step_view` — a call changes them by additions and removals.

Principal results: `inv_of_reach`, `isMap_of_inv` — after any run the table is a map; `flowTable_iff`,
`flowTable_lostReading`; `sizingSound_iff`.
-/

namespace Doca.SimpleFwd

open Doca.Lib Function List UInt32 Nat

/-! ## The table without times and counters -/

structure Slot where
  id : Nat
  key : Key
  bucketsIndex : UInt16
  fid : UInt32

def Entry.slot (e : Entry) : Slot := ⟨e.id, e.key, e.bucketsIndex, e.fid⟩

structure Table where
  size : UInt32
  mask : UInt32
  buckets : Nat → List Slot
  add : UInt64
  rm : UInt64
  fidCtr : UInt32
  log : List Act

def Ft.view (ft : Ft) : Table :=
  ⟨ft.size, ft.mask, fun i => (ft.buckets i).map Entry.slot, ft.add, ft.rm, ft.fidCtr, ft.log⟩

namespace Table

variable (t : Table)

def idx (rssHash : UInt32) : Nat := (rssHash &&& t.mask).toNat

def entries : Nat := ∑ i ∈ Finset.range t.size.toNat, (t.buckets i).length

def newSlot (pinfo : PktInfo) (key : Key) : Slot :=
  ⟨additions t.log, key, UInt16.ofNat (t.idx pinfo.rssHash), t.fidCtr⟩

def insert (pinfo : PktInfo) (key : Key) : Table :=
  { t with
    buckets := Function.update t.buckets (t.idx pinfo.rssHash)
      (t.newSlot pinfo key :: t.buckets (t.idx pinfo.rssHash))
    add := t.add + 1
    fidCtr := t.fidCtr + 1
    log := .added (additions t.log) pinfo :: t.log }

def delete (id : Nat) : Table :=
  { t with
    buckets := fun i => (t.buckets i).filter fun s => s.id ≠ id
    rm := t.rm + 1
    log := .removed id :: t.log }

/-- A flow is in the table exactly if it was added and not removed, in the bucket of its first packet,
where no other flow has its key. -/
structure Inv : Prop where
  size : t.mask.toNat < t.size.toNat
  small : t.size.toNat ≤ 2 ^ 16
  slot : ∀ {i s}, s ∈ t.buckets i → ∃ p, .added s.id p ∈ t.log ∧ keyFill p = some s.key ∧
    i = t.idx p.rssHash ∧ s.bucketsIndex = UInt16.ofNat i ∧ s.fid = UInt32.ofNat s.id
  kept : ∀ {i s}, s ∈ t.buckets i → .removed s.id ∉ t.log
  present : ∀ {id p}, .added id p ∈ t.log → .removed id ∉ t.log →
    ∃ s ∈ t.buckets (t.idx p.rssHash), s.id = id
  once : ∀ {id p q}, .added id p ∈ t.log → .added id q ∈ t.log → p = q
  addedLt : ∀ {id p}, .added id p ∈ t.log → id < additions t.log
  removedLt : ∀ {id}, .removed id ∈ t.log → id < additions t.log
  ids : ∀ i, ((t.buckets i).map Slot.id).Nodup
  keys : ∀ i, ((t.buckets i).map fun s => s.key.compared).Nodup
  fidCtr : t.fidCtr = UInt32.ofNat (additions t.log)
  counted : t.add - t.rm = UInt64.ofNat t.entries

variable {t : Table}

theorem idx_lt (hsize : t.mask.toNat < t.size.toNat) (rssHash : UInt32) :
    t.idx rssHash < t.size.toNat := by
  unfold idx
  rw [UInt32.toNat_and]
  exact lt_of_le_of_lt Nat.and_le_right hsize

variable {i : Nat} {s : Slot}

theorem Inv.unique (h : Inv t) {j : Nat} {s' : Slot} (hs : s ∈ t.buckets i) (hs' : s' ∈ t.buckets j)
    (hid : s.id = s'.id) : i = j ∧ s = s' := by
  obtain ⟨p, hp, -, hi, -⟩ := h.slot hs
  obtain ⟨q, hq, -, hj, -⟩ := h.slot hs'
  rw [← hid] at hq
  have hpq := h.once hp hq
  subst hpq
  have hij : i = j := hi.trans hj.symm
  subst hij
  exact ⟨rfl, inj_on_of_nodup_map (h.ids i) hs hs' hid⟩

theorem additions_added (log : List Act) (id : Nat) (p : PktInfo) :
    additions (.added id p :: log) = additions log + 1 :=
  countP_cons_of_pos rfl

theorem additions_removed (log : List Act) (id : Nat) : additions (.removed id :: log) = additions log :=
  countP_cons_of_neg (by simp [Act.isAdded])

/-! ### Adding a flow -/

theorem mem_insert {p : PktInfo} {k : Key} : s ∈ (t.insert p k).buckets i ↔
      (i = t.idx p.rssHash ∧ s = t.newSlot p k) ∨ s ∈ t.buckets i := by
  unfold insert
  dsimp only
  by_cases hi : i = t.idx p.rssHash
  · subst hi
    simp
  · simp [hi]

theorem entries_insert (hsize : t.mask.toNat < t.size.toNat) (p : PktInfo) (k : Key) :
    (t.insert p k).entries = t.entries + 1 := by
  have hmem : t.idx p.rssHash ∈ Finset.range t.size.toNat := Finset.mem_range.mpr (idx_lt hsize _)
  have hsum := @sum_update _ _ _ t.buckets _ (t.newSlot p k :: t.buckets (t.idx p.rssHash)) _ length hmem
  rw [length_cons] at hsum
  show ∑ i ∈ Finset.range t.size.toNat, (update t.buckets _ _ i).length = _
  unfold entries
  omega

theorem insert_inv {p : PktInfo} {k : Key} (h : Inv t) (hk : keyFill p = some k)
    (hnew : ∀ s ∈ t.buckets (t.idx p.rssHash), s.key.compared ≠ k.compared) : Inv (t.insert p k) where
  size := h.size
  small := h.small
  slot {i s} hs := by
    rcases mem_insert.mp hs with ⟨rfl, rfl⟩ | hs
    · exact ⟨p, mem_cons_self, hk, rfl, rfl, h.fidCtr⟩
    · obtain ⟨q, hq, hrest⟩ := h.slot hs
      exact ⟨q, mem_cons_of_mem _ hq, hrest⟩
  kept {i s} hs hrm := by
    have hrm : Act.removed s.id ∈ t.log := by simpa [insert] using hrm
    rcases mem_insert.mp hs with ⟨rfl, rfl⟩ | hs
    · exact absurd (h.removedLt hrm) (lt_irrefl _)
    · exact h.kept hs hrm
  present {id q} hq hrm := by
    have hrm : Act.removed id ∉ t.log := fun hno => hrm (mem_cons_of_mem _ hno)
    rcases mem_cons.mp hq with heq | hq
    · cases heq
      exact ⟨t.newSlot p k, mem_insert.mpr (.inl ⟨rfl, rfl⟩), rfl⟩
    · obtain ⟨s, hs, hid⟩ := h.present hq hrm
      exact ⟨s, mem_insert.mpr (.inr hs), hid⟩
  once {id q r} hq hr := by
    rcases mem_cons.mp hq with heq | hq
    · cases heq
      rcases mem_cons.mp hr with heq | hr
      · cases heq; rfl
      · exact absurd (h.addedLt hr) (lt_irrefl _)
    · rcases mem_cons.mp hr with heq | hr
      · cases heq
        exact absurd (h.addedLt hq) (lt_irrefl _)
      · exact h.once hq hr
  addedLt {id q} hq := by
    show id < additions (_ :: t.log)
    rw [additions_added]
    rcases mem_cons.mp hq with heq | hq
    · cases heq
      exact lt_succ_self _
    · exact lt_succ_of_lt (h.addedLt hq)
  removedLt {id} hrm := by
    show id < additions (_ :: t.log)
    rw [additions_added]
    exact lt_succ_of_lt (h.removedLt (by simpa [insert] using hrm))
  ids i := by
    unfold insert
    dsimp only
    by_cases hi : i = t.idx p.rssHash
    · subst hi
      rw [update_self, map_cons, nodup_cons]
      refine ⟨fun hno => ?_, h.ids _⟩
      obtain ⟨s, hs, hid⟩ := mem_map.mp hno
      obtain ⟨q, hq, -⟩ := h.slot hs
      rw [hid] at hq
      exact absurd (h.addedLt hq) (lt_irrefl _)
    · rw [update_of_ne hi]
      exact h.ids i
  keys i := by
    unfold insert
    dsimp only
    by_cases hi : i = t.idx p.rssHash
    · subst hi
      rw [update_self, map_cons, nodup_cons]
      refine ⟨fun hno => ?_, h.keys _⟩
      obtain ⟨s, hs, hkey⟩ := mem_map.mp hno
      exact hnew s hs hkey
    · rw [update_of_ne hi]
      exact h.keys i
  fidCtr := by
    show t.fidCtr + 1 = ofNat (additions (_ :: t.log))
    rw [additions_added, h.fidCtr, ofNat_add]
    rfl
  counted := by
    rw [entries_insert h.size, UInt64.ofNat_add, ← h.counted]
    show t.add + 1 - t.rm = t.add - t.rm + UInt64.ofNat 1
    grind

/-! ### Removing a flow -/

theorem mem_delete {id : Nat} : s ∈ (t.delete id).buckets i ↔ s ∈ t.buckets i ∧ s.id ≠ id := by
  simp [delete]

theorem length_delete (h : Inv t) {j : Nat} (hs : s ∈ t.buckets i) :
    ((t.delete s.id).buckets j).length + (if j = i then 1 else 0) = (t.buckets j).length := by
  unfold delete
  dsimp only
  split
  · rename_i hj
    subst hj
    have hlen := length_eq_countP_add_countP (fun x : Slot => decide (x.id ≠ s.id)) (l := t.buckets j)
    have hone : (t.buckets j).countP (fun x => decide ¬ decide (x.id ≠ s.id) = true) = 1 := by
      have hcount : ((t.buckets j).map Slot.id).count s.id = 1 :=
        count_eq_one_of_mem (h.ids j) (mem_map_of_mem hs)
      rw [List.count, List.countP_map] at hcount
      rw [← hcount]
      refine countP_congr fun x _ => ?_
      simp
    rw [← countP_eq_length_filter]
    omega
  · rename_i hj
    rw [filter_eq_self.mpr]
    · rfl
    · intro x hx
      have hne : x.id ≠ s.id := fun heq => hj (h.unique hx hs heq).1
      simpa using hne

theorem entries_delete (h : Inv t) (hs : s ∈ t.buckets i) : (t.delete s.id).entries + 1 = t.entries := by
  have hi : i ∈ Finset.range t.size.toNat := by
    obtain ⟨p, -, -, rfl, -⟩ := h.slot hs
    exact Finset.mem_range.mpr (idx_lt h.size _)
  have hsum : ∑ j ∈ Finset.range t.size.toNat,
      (((t.delete s.id).buckets j).length + if j = i then 1 else 0) = t.entries :=
    Finset.sum_congr rfl fun j _ => length_delete h hs
  rw [Finset.sum_add_distrib, Finset.sum_ite_eq' _ i, if_pos hi] at hsum
  exact hsum

theorem delete_inv (h : Inv t) (hs : s ∈ t.buckets i) : Inv (t.delete s.id) where
  size := h.size
  small := h.small
  slot {j x} hx := by
    obtain ⟨hx, -⟩ := mem_delete.mp hx
    obtain ⟨q, hq, hrest⟩ := h.slot hx
    exact ⟨q, mem_cons_of_mem _ hq, hrest⟩
  kept {j x} hx hrm := by
    obtain ⟨hx, hne⟩ := mem_delete.mp hx
    rcases mem_cons.mp hrm with heq | hrm
    · exact hne (Act.removed.inj heq)
    · exact h.kept hx hrm
  present {id q} hq hrm := by
    have hq : Act.added id q ∈ t.log := by simpa [delete] using hq
    obtain ⟨x, hx, rfl⟩ := h.present hq fun hno => hrm (mem_cons_of_mem _ hno)
    refine ⟨x, mem_delete.mpr ⟨hx, fun heq => hrm ?_⟩, rfl⟩
    rw [heq]
    exact mem_cons_self
  once {id q r} hq hr :=
    h.once (by simpa [delete] using hq : Act.added id q ∈ t.log) (by simpa [delete] using hr)
  addedLt {id q} hq := by
    show id < additions (_ :: t.log)
    rw [additions_removed]
    exact h.addedLt (by simpa [delete] using hq : Act.added id q ∈ t.log)
  removedLt {id} hrm := by
    show id < additions (_ :: t.log)
    rw [additions_removed]
    rcases mem_cons.mp hrm with heq | hrm
    · cases heq
      obtain ⟨q, hq, -⟩ := h.slot hs
      exact h.addedLt hq
    · exact h.removedLt hrm
  ids j := (filter_sublist.map _).nodup (h.ids j)
  keys j := (filter_sublist.map _).nodup (h.keys j)
  fidCtr := by
    show t.fidCtr = ofNat (additions (_ :: t.log))
    rw [additions_removed, h.fidCtr]
  counted := by
    have hcount := h.counted
    rw [← entries_delete h hs, UInt64.ofNat_add] at hcount
    show t.add - (t.rm + 1) = _
    have hone : UInt64.ofNat 1 = 1 := rfl
    grind

/-- A flow is added whose key is not in its bucket, or a flow of the table is removed. -/
inductive Change (t : Table) : Table → Prop
  | insert {p : PktInfo} {k : Key} (hk : keyFill p = some k)
      (hnew : ∀ s ∈ t.buckets (t.idx p.rssHash), s.key.compared ≠ k.compared) : Change t (t.insert p k)
  | delete {i : Nat} {s : Slot} (hs : s ∈ t.buckets i) : Change t (t.delete s.id)

theorem Inv.changes {t' : Table} (h : Inv t) (hch : Relation.ReflTransGen Change t t') : Inv t' := by
  induction hch with
  | refl => exact h
  | tail _ hch ih =>
    cases hch with
    | insert hk hnew => exact insert_inv ih hk hnew
    | delete hs => exact delete_inv ih hs

theorem additions_le {t' : Table} (hch : Relation.ReflTransGen Change t t') :
    additions t.log ≤ additions t'.log := by
  induction hch with
  | refl => exact le_rfl
  | tail _ hch ih =>
    refine ih.trans ?_
    cases hch with
    | insert => exact (additions_added ..).symm ▸ le_succ _
    | delete => exact (additions_removed ..).symm ▸ le_rfl

end Table

/-! ## The slots of the flow table -/

section View

open Relation (ReflTransGen)
open Table (Change)

variable {hz : UInt64} {ft : Ft} {pinfo : PktInfo} {env : PacketEnv}

variable {i : Nat} {e : Entry}

theorem mem_view (h : e ∈ ft.buckets i) : e.slot ∈ ft.view.buckets i :=
  mem_map_of_mem h

theorem updateExpiration_slot (hz now : UInt64) (e : Entry) :
    (updateExpiration hz now e).slot = e.slot := by
  unfold updateExpiration
  split <;> rfl

theorem view_write (h : ft.view.Inv) {x : Entry} (hx : x ∈ ft.buckets i) (hslot : e.slot = x.slot) :
    (ft.write e).view = ft.view := by
  have hbuckets : (ft.write e).view.buckets = ft.view.buckets := by
    funext j
    show ((ft.buckets j).map _).map Entry.slot = (ft.buckets j).map Entry.slot
    rw [map_map]
    refine map_congr_left fun y hy => ?_
    show (if y.id = e.id then e else y).slot = y.slot
    split
    · rename_i hid
      have hid : y.slot.id = x.slot.id := hid.trans (congrArg Slot.id hslot)
      rw [hslot]
      exact (h.unique (mem_view hy) (mem_view hx) hid).2.symm
    · rfl
  exact congrArg (fun b => { ft.view with buckets := b }) hbuckets

theorem view_destroy (e : Entry) : (ftDestroyEntry ft e).view = ft.view.delete e.id := by
  have hbuckets : (ftDestroyEntry ft e).view.buckets = (ft.view.delete e.id).buckets := by
    funext i
    show ((ft.buckets i).filter _).map Entry.slot = ((ft.buckets i).map Entry.slot).filter _
    rw [filter_map]
    rfl
  exact congrArg (fun b => { ft.view.delete e.id with buckets := b }) hbuckets

theorem view_link (key : Key) (now : UInt64) :
    (ft.link pinfo (newEntry hz ft pinfo key now)).view = ft.view.insert pinfo key := by
  have hbuckets : (ft.link pinfo (newEntry hz ft pinfo key now)).view.buckets =
      (ft.view.insert pinfo key).buckets := by
    funext i
    show (update ft.buckets (ft.idx pinfo.rssHash) _ i).map Entry.slot =
      update ft.view.buckets (ft.idx pinfo.rssHash) _ i
    by_cases hi : i = ft.idx pinfo.rssHash
    · subst hi
      rw [update_self, update_self]
      rfl
    · rw [update_of_ne hi, update_of_ne hi]
      rfl
  exact congrArg (fun b => { ft.view.insert pinfo key with buckets := b }) hbuckets

theorem view_ftFind (h : ft.view.Inv) (now : UInt64) : (ftFind hz ft pinfo now).2.view = ft.view := by
  rcases ftFind_cases hz ft pinfo now with ⟨err, heq, -⟩ | ⟨k, node, -, hnode, heq⟩
  · rw [heq]
  · rw [heq]
    exact view_write h (node_eq_some hnode).1 (updateExpiration_slot ..)

theorem view_handleNewFlow (h : ft.view.Inv) (hnone : ∀ k, keyFill pinfo = some k → ft.node k = none) :
    ReflTransGen Change ft.view (handleNewFlow hz ft pinfo env).2.2.view ∧
      ∀ e, (handleNewFlow hz ft pinfo env).2.1 = some e →
        e ∈ (handleNewFlow hz ft pinfo env).2.2.buckets (ft.idx pinfo.rssHash) := by
  rcases handleNewFlow_cases hz ft pinfo env with
    heq | ⟨k, e, hk, he, ⟨-, heq⟩ | ⟨handle, ageSec, e', -, he', heq⟩⟩
  · rw [heq]
    exact ⟨.refl, nofun⟩
  all_goals
    have hnew : ∀ s ∈ ft.view.buckets (ft.view.idx pinfo.rssHash), s.key.compared ≠ k.compared := by
      intro s hs
      obtain ⟨x, hx, rfl⟩ := mem_map.mp hs
      refine node_eq_none (hnone k hk) x ?_
      rwa [keyFill_rssHash hk]
    have hins : Change ft.view (ft.view.insert pinfo k) := .insert hk hnew
    have hmem : newEntry hz ft pinfo k env.now ∈
        (ft.link pinfo (newEntry hz ft pinfo k env.now)).buckets (ft.idx pinfo.rssHash) := mem_link
    have hlink := @view_link hz ft pinfo k env.now
    have hinv : (ft.link pinfo (newEntry hz ft pinfo k env.now)).view.Inv :=
      hlink ▸ h.changes (.single hins)
    have hwrite := view_write hinv (e := e) hmem (by rw [he]; rfl)
    have hmemE := mem_write (e := e) hmem (by rw [he])
  · rw [heq]
    refine ⟨(ReflTransGen.single hins).tail ?_, nofun⟩
    rw [view_destroy, hwrite, hlink]
    refine .delete (i := ft.idx pinfo.rssHash) (s := e.slot) ?_
    rw [← hlink, ← hwrite]
    exact mem_view hmemE
  · rw [heq]
    have hslot : e'.slot = e.slot := by
      rw [he']
      exact updateExpiration_slot hz env.later { e with ageSec := ageSec }
    refine ⟨?_, ?_⟩
    · rw [view_write (hwrite ▸ hinv) hmemE hslot, hwrite, hlink]
      exact .single hins
    · rintro _ ⟨⟩
      exact mem_write hmemE (congrArg Slot.id hslot).symm

theorem view_countPkt (h : ft.view.Inv) (he : e ∈ ft.buckets i) : (ft.countPkt e).view = ft.view :=
  view_write h he rfl

theorem view_handlePacket (h : ft.view.Inv) :
    ReflTransGen Change ft.view (handlePacket hz ft pinfo env).2.view := by
  unfold handlePacket
  split
  · rcases ftFind_cases hz ft pinfo env.now with ⟨err, heq, hnone⟩ | ⟨k, node, -, hnode, heq⟩
    · rw [heq]
      dsimp only
      obtain ⟨hch, hmem⟩ := @view_handleNewFlow hz ft pinfo env h hnone
      rcases hnew : handleNewFlow hz ft pinfo env with ⟨r, _ | e, ft'⟩
      · rwa [hnew] at hch
      · rw [hnew] at hch hmem
        dsimp only
        rw [view_countPkt (h.changes hch) (hmem e rfl)]
        exact hch
    · rw [heq]
      dsimp only
      have hmem := (node_eq_some hnode).1
      have hfound := view_write h hmem (updateExpiration_slot hz env.now node)
      rw [view_countPkt (hfound ▸ h) (mem_write hmem (updateExpiration_id ..).symm), hfound]
  · exact .refl

theorem Swept.slot {t : UInt64} {query : Nat → Reading} {e' : Entry} (h : Swept t query e e') :
    e'.slot = e.slot := by
  rcases h with rfl | ⟨-, -, rfl⟩ <;> rfl

theorem swept_slots {t : UInt64} {query : Nat → Reading} {l l' : List Entry}
    (h : List.Forall₂ (Swept t query) l l') : l'.map Entry.slot = l.map Entry.slot := by
  induction h with
  | nil => rfl
  | cons hswept _ ih => rw [map_cons, map_cons, hswept.slot, ih]

theorem view_agingFtEntry (ft : Ft) (i : Nat) (t : UInt64) (query : Nat → Reading) :
    (agingFtEntry ft i t query).2.view =
      match (ft.buckets i).find? fun e => Idle t query e with
      | some e => ft.view.delete e.id
      | none => ft.view := by
  have hbuckets : ∀ j, (update ft.buckets i (agingLoop t query (ft.buckets i)).1 j).map
      Entry.slot = (ft.buckets j).map Entry.slot := by
    intro j
    by_cases hj : j = i
    · subst hj
      rw [update_self, swept_slots (agingLoop_swept t query _)]
    · rw [update_of_ne hj]
  have hview : Ft.view { ft with
      buckets := update ft.buckets i (agingLoop t query (ft.buckets i)).1 } = ft.view :=
    congrArg (fun b => { ft.view with buckets := b }) (funext hbuckets)
  unfold agingFtEntry
  rw [← agingLoop_victim]
  dsimp only
  cases (agingLoop t query (ft.buckets i)).2 with
  | none => exact hview
  | some e =>
    show (ftDestroyEntry _ e).view = _
    rw [view_destroy, hview]

theorem step_view {ev : Ev} {ft' : Ft} (h : ft.view.Inv) (hs : step hz ft ev = some ft') :
    ReflTransGen Change ft.view ft'.view := by
  cases ev with
  | packet pinfo env =>
    cases hs
    exact view_handlePacket h
  | find pinfo now =>
    cases hs
    show ReflTransGen Change ft.view (ftFind hz ft pinfo now).2.view
    rw [view_ftFind h]
  | sweep i t query =>
    simp only [step] at hs
    split at hs <;> cases hs
    rw [view_agingFtEntry]
    split
    · rename_i he
      exact .single (.delete (mem_view (mem_of_find?_eq_some he)))
    · exact .refl
  | destroy e =>
    simp only [step] at hs
    split at hs <;> cases hs
    rename_i hlive
    obtain ⟨i, -, he⟩ := hlive
    rw [view_destroy]
    exact .single (.delete (mem_view he))

end View

/-! ## Runs -/

section Runs

variable {hz : UInt64} {nbFlows : Int} {ft0 ft : Ft}

theorem alignFlows_pow {n : UInt32} (hpos : 0 < n.toNat) (hn : n.toNat ≤ 2 ^ 15) :
    ∃ k ≤ 15, n.toNat ≤ 2 ^ k ∧ (alignFlows n).toNat = 2 ^ (k + 1) := by
  obtain ⟨k, hk, hle, hpow⟩ : ∃ k ≤ 15, n.toNat ≤ 2 ^ k ∧
      (if n &&& (n - 1) ≠ 0 then align32pow2 n else n).toNat = 2 ^ k := by
    split
    · have hclog : clog 2 n.toNat ≤ 15 := clog_le_of_le_pow hn
      have hpow : 2 ^ clog 2 n.toNat ≤ 2 ^ 15 := Nat.pow_le_pow_right (by decide) hclog
      refine ⟨_, hclog, le_pow_clog (by decide) _, ?_⟩
      rw [align32pow2, toNat_ofNat', mod_eq_of_lt (by omega)]
    · rename_i hand
      have hone : (1 : UInt32) ≤ n := le_iff_toNat_le.mpr hpos
      have hzero := congrArg UInt32.toNat (not_not.mp hand)
      rw [UInt32.toNat_and, UInt32.toNat_sub_of_le _ _ hone] at hzero
      obtain ⟨k, hpow⟩ := (and_sub_one_eq_zero_iff_isPowerOfTwo hpos.ne').mp hzero
      exact ⟨k, (Nat.pow_le_pow_iff_right (by decide)).mp (hpow ▸ hn), hpow.le, hpow⟩
  have hbound : 2 ^ k ≤ 2 ^ 15 := Nat.pow_le_pow_right (by decide) hk
  refine ⟨k, hk, hle, ?_⟩
  rw [alignFlows, UInt32.toNat_mul, hpow]
  exact mod_eq_of_lt (show 2 ^ k * 2 < 2 ^ 32 by omega)

theorem ftCreate_mask (h0 : ftCreate nbFlows = some ft0) (hsize : 0 < ft0.size.toNat) :
    ft0.mask.toNat = ft0.size.toNat - 1 := by
  unfold ftCreate at h0
  split at h0 <;> cases h0
  exact UInt32.toNat_sub_of_le _ _ (le_iff_toNat_le.mpr hsize)

theorem ftCreate_pow (hn : nbFlows ≤ 2 ^ 15) (h0 : ftCreate nbFlows = some ft0) :
    (∃ k, ft0.size.toNat = 2 ^ k) ∧ 2 * nbFlows ≤ ft0.size.toNat ∧ ft0.size.toNat ≤ 2 ^ 16 := by
  unfold ftCreate at h0
  split at h0 <;> cases h0
  have hnat : (ofNat nbFlows.toNat).toNat = nbFlows.toNat := by
    rw [toNat_ofNat']
    exact mod_eq_of_lt (by omega)
  obtain ⟨k, hk, hle, hpow⟩ := alignFlows_pow (n := .ofNat nbFlows.toNat) (by omega) (by omega)
  have hbound : 2 ^ (k + 1) ≤ 2 ^ 16 := Nat.pow_le_pow_right (by decide) (by omega)
  refine ⟨⟨_, hpow⟩, ?_, hpow.trans_le hbound⟩
  show 2 * nbFlows ≤ ((alignFlows _).toNat : Int)
  omega

theorem ftCreate_inv (hn : nbFlows ≤ 2 ^ 15) (h0 : ftCreate nbFlows = some ft0) : ft0.view.Inv := by
  obtain ⟨⟨k, hpow⟩, -, hhigh⟩ := ftCreate_pow hn h0
  have hlow : 0 < ft0.size.toNat := hpow ▸ Nat.two_pow_pos _
  have hlt : ft0.mask.toNat < ft0.size.toNat := ftCreate_mask h0 hlow ▸ sub_lt hlow one_pos
  unfold ftCreate at h0
  split at h0 <;> cases h0
  refine ⟨hlt, hhigh, nofun, nofun, nofun, nofun, nofun, nofun, fun _ => nodup_nil,
    fun _ => nodup_nil, rfl, ?_⟩
  show (0 : UInt64) - 0 = UInt64.ofNat (∑ _i ∈ Finset.range _, 0)
  rw [Finset.sum_const_zero]
  rfl

theorem inv_of_reach {G : Ft → Ev → Prop} (hn : nbFlows ≤ 2 ^ 15) (h0 : ftCreate nbFlows = some ft0)
    (h : Reach (step hz) G ft0 ft) : ft.view.Inv :=
  h.invariant (I := fun ft => ft.view.Inv) (ftCreate_inv hn h0) fun _ _ _ hi _ hs =>
    hi.changes (step_view hi hs)

def Ft.SameFlow (ft : Ft) (p q : PktInfo) : Prop :=
  ft.idx p.rssHash = ft.idx q.rssHash ∧
    ∃ k l, keyFill p = some k ∧ keyFill q = some l ∧ k.compared = l.compared

/-- The table is a map from flows to entries. -/
structure IsMap (ft : Ft) : Prop where
  /-- An entry is in the bucket of the packet that created it. -/
  placed : ∀ i, ∀ e ∈ ft.buckets i, ∃ p, .added e.id p ∈ ft.log ∧ keyFill p = some e.key ∧
    i = ft.idx p.rssHash ∧ e.bucketsIndex.toNat = i
  /-- No two entries of a bucket have equal keys. -/
  keys : ∀ i, (ft.buckets i).Pairwise fun e e' => keyEqual e.key e'.key = false
  /-- The statistics count the entries. -/
  counted : ft.add - ft.rm = UInt64.ofNat (∑ i ∈ Finset.range ft.size.toNat, (ft.buckets i).length)
  /-- The ids of the flows are distinct. -/
  fids : additions ft.log < 2 ^ 32 → ∀ i j e e', e ∈ ft.buckets i → e' ∈ ft.buckets j →
    e.fid = e'.fid → i = j ∧ e = e'
  /-- A lookup finds the entry that was added for the flow and not removed. -/
  find : ∀ hz p now id, (∃ e, (ftFind hz ft p now).1 = .ok e ∧ e.id = id) ↔
    ∃ q, .added id q ∈ ft.log ∧ .removed id ∉ ft.log ∧ ft.SameFlow q p

variable (h : ft.view.Inv)

include h

theorem keys_of_inv (i : Nat) :
    (ft.buckets i).Pairwise fun e e' => keyEqual e.key e'.key = false := by
  have hnd : ((ft.buckets i).map fun e => e.key.compared).Nodup := by
    have hkeys := h.keys i
    rwa [show ft.view.buckets i = (ft.buckets i).map Entry.slot from rfl, map_map] at hkeys
  refine (pairwise_map.mp hnd).imp fun hne => ?_
  rw [← Bool.not_eq_true, keyEqual_iff]
  exact hne

variable {i j : Nat} {e : Entry}

theorem eq_of_id {e' : Entry} (he : e ∈ ft.buckets i) (he' : e' ∈ ft.buckets j)
    (hid : e.id = e'.id) : i = j ∧ e = e' := by
  obtain ⟨rfl, -⟩ := h.unique (mem_view he) (mem_view he') hid
  have hnd : ((ft.buckets i).map Entry.id).Nodup := by
    have hids := h.ids i
    rwa [show ft.view.buckets i = (ft.buckets i).map Entry.slot from rfl, map_map] at hids
  exact ⟨rfl, inj_on_of_nodup_map hnd he he' hid⟩

theorem eq_of_fid (hlt : additions ft.log < 2 ^ 32) {e' : Entry}
    (he : e ∈ ft.buckets i) (he' : e' ∈ ft.buckets j) (hfid : e.fid = e'.fid) : i = j ∧ e = e' := by
  obtain ⟨p, hp, -, -, -, hf⟩ := h.slot (mem_view he)
  obtain ⟨q, hq, -, -, -, hf'⟩ := h.slot (mem_view he')
  have hid : e.id < additions ft.log := h.addedLt hp
  have hid' : e'.id < additions ft.log := h.addedLt hq
  have heq : ofNat e.id = ofNat e'.id := hf.symm.trans (hfid.trans hf')
  have hnat := congrArg toNat heq
  rw [toNat_ofNat', toNat_ofNat', mod_eq_of_lt (hid.trans hlt), mod_eq_of_lt (hid'.trans hlt)] at hnat
  exact eq_of_id h he he' hnat

variable {p : PktInfo}

theorem ftFind_ok {now : UInt64} {id : Nat} :
    (∃ e, (ftFind hz ft p now).1 = .ok e ∧ e.id = id) ↔
      ∃ k, keyFill p = some k ∧ ∃ e ∈ ft.buckets (ft.idx p.rssHash),
        e.id = id ∧ e.key.compared = k.compared := by
  rcases ftFind_cases hz ft p now with ⟨err, heq, hnone⟩ | ⟨k, node, hk, hnode, heq⟩
  · rw [heq]
    constructor
    · rintro ⟨e, he, -⟩
      cases he
    · rintro ⟨k, hk, e, he, -, hkey⟩
      refine absurd hkey (node_eq_none (hnone k hk) e ?_)
      rwa [keyFill_rssHash hk]
  · rw [heq]
    obtain ⟨hmem, hkey⟩ := node_eq_some hnode
    rw [keyFill_rssHash hk] at hmem
    constructor
    · rintro ⟨e, he, rfl⟩
      cases he
      exact ⟨k, hk, node, hmem, (updateExpiration_id ..).symm, hkey⟩
    · rintro ⟨k', hk', e, he, rfl, hkey'⟩
      cases hk.symm.trans hk'
      have hnd : ((ft.buckets (ft.idx p.rssHash)).map fun e => e.key.compared).Nodup := by
        have hkeys := h.keys (ft.idx p.rssHash)
        rwa [show ft.view.buckets _ = (ft.buckets _).map Entry.slot from rfl, map_map] at hkeys
      have hsame : node = e := inj_on_of_nodup_map hnd hmem he (hkey.trans hkey'.symm)
      exact ⟨_, rfl, by rw [updateExpiration_id, hsame]⟩

theorem find_iff {now : UInt64} {id : Nat} :
    (∃ e, (ftFind hz ft p now).1 = .ok e ∧ e.id = id) ↔
      ∃ q, .added id q ∈ ft.log ∧ .removed id ∉ ft.log ∧ ft.SameFlow q p := by
  rw [ftFind_ok h]
  constructor
  · rintro ⟨k, hk, e, he, rfl, hkey⟩
    obtain ⟨q, hq, hl, hidx, -⟩ := h.slot (mem_view he)
    exact ⟨q, hq, h.kept (mem_view he), hidx.symm, e.key, k, hl, hk, hkey⟩
  · rintro ⟨q, hq, hrm, hidx, l, k, hl, hk, hkey⟩
    obtain ⟨s, hs, rfl⟩ := h.present hq hrm
    obtain ⟨e, he, rfl⟩ := mem_map.mp hs
    obtain ⟨q', hq', hl', -⟩ := h.slot (mem_view he)
    cases h.once hq hq'
    cases hl.symm.trans hl'
    exact ⟨k, hk, e, hidx ▸ he, rfl, hkey⟩

theorem isMap_of_inv : IsMap ft where
  placed i e he := by
    obtain ⟨p, hp, hk, hi, hidx, -⟩ := h.slot (mem_view he)
    have hlt : i < 2 ^ 16 := hi ▸ lt_of_lt_of_le (Table.idx_lt h.size _) h.small
    refine ⟨p, hp, hk, hi, ?_⟩
    show e.slot.bucketsIndex.toNat = i
    rw [hidx, UInt16.toNat_ofNat', mod_eq_of_lt hlt]
  keys := keys_of_inv h
  counted := by
    have hcount := h.counted
    unfold Table.entries at hcount
    refine hcount.trans (congrArg UInt64.ofNat (Finset.sum_congr rfl fun i _ => ?_))
    exact length_map ..
  fids hlt _ _ _ _ he he' hfid := eq_of_fid h hlt he he' hfid
  find _ _ _ _ := find_iff h

def FailsClean (hz : UInt64) (ft : Ft) (ev : Ev) : Prop :=
  ∀ p env, ev = .packet p env → (handlePacket hz ft p env).1 ≠ 0 →
    ∀ i, (handlePacket hz ft p env).2.buckets i = ft.buckets i

theorem handlePacket_failed {env : PacketEnv} (hfail : (handlePacket hz ft p env).1 ≠ 0) (i : Nat) :
    (handlePacket hz ft p env).2.buckets i = ft.buckets i := by
  have hids : ∀ i, ∀ x ∈ ft.buckets i, x.id < additions ft.log := fun i x hx => by
    obtain ⟨q, hq, -⟩ := h.slot (mem_view hx)
    exact h.addedLt hq
  unfold handlePacket at hfail ⊢
  split
  · rename_i hneed
    rw [if_pos hneed] at hfail
    rcases ftFind_cases hz ft p env.now with ⟨err, heq, -⟩ | ⟨k, node, -, -, heq⟩
    · rw [heq] at hfail ⊢
      dsimp only at hfail ⊢
      have hclean := @handleNewFlow_failed hz ft p env hids
      rcases hnew : handleNewFlow hz ft p env with ⟨r, _ | e, ft'⟩
      · rw [hnew] at hclean
        exact hclean rfl i
      · rw [hnew] at hfail
        exact absurd rfl hfail
    · rw [heq] at hfail
      exact absurd rfl hfail
  · rfl

def SweepJustified (ft : Ft) (ev : Ev) : Prop :=
  ∀ i t query, ev = .sweep i t query → ∀ j, ∀ e ∈ ft.buckets j,
    (∀ e' ∈ (agingFtEntry ft i t query).2.buckets j, e'.id ≠ e.id) →
      e.ageSec ≠ 0 ∧ e.expiration < t ∧ (query e.id).totalPkts = e.lastCounter

/-- The first entry that the sweep takes for idle is one whose query fails, and its counter moved. -/
def LostReading (ft : Ft) (ev : Ev) : Prop :=
  ∃ i t query e, ev = .sweep i t query ∧ (ft.buckets i).find? (fun e => Idle t query e) = some e ∧
    (query e.id).ok = false ∧ (query e.id).totalPkts ≠ e.lastCounter

theorem sweep_removed_iff {t : UInt64} {query : Nat → Reading} (he : e ∈ ft.buckets j) :
    (∀ e' ∈ (agingFtEntry ft i t query).2.buckets j, e'.id ≠ e.id) ↔
      i = j ∧ (ft.buckets i).find? (fun e => Idle t query e) = some e := by
  have hview := view_agingFtEntry ft i t query
  have hgone : (∀ e' ∈ (agingFtEntry ft i t query).2.buckets j, e'.id ≠ e.id) ↔
      ∀ s ∈ (agingFtEntry ft i t query).2.view.buckets j, s.id ≠ e.id := by
    show _ ↔ ∀ s ∈ ((agingFtEntry ft i t query).2.buckets j).map Entry.slot, s.id ≠ e.id
    rw [forall_mem_map]
    rfl
  rw [hgone, hview]
  cases hvict : (ft.buckets i).find? fun e => Idle t query e with
  | none =>
    refine ⟨fun hall => absurd rfl (hall e.slot (mem_view he)), fun hno => ?_⟩
    cases hno.2
  | some v =>
    have hv := mem_of_find?_eq_some hvict
    constructor
    · intro hall
      by_cases hid : e.id = v.id
      · obtain ⟨rfl, rfl⟩ := eq_of_id h he hv hid
        exact ⟨rfl, rfl⟩
      · exact absurd rfl (hall e.slot (Table.mem_delete.mpr ⟨mem_view he, hid⟩))
    · rintro ⟨rfl, heq⟩ s hs
      cases heq
      exact (Table.mem_delete.mp hs).2

theorem sweepJustified_iff (ev : Ev) : SweepJustified ft ev ↔ ¬ LostReading ft ev := by
  constructor
  · rintro hj ⟨i, t, query, e, rfl, hvict, -, hmoved⟩
    have he := mem_of_find?_eq_some hvict
    exact hmoved (hj i t query rfl i e he ((sweep_removed_iff h he).mpr ⟨rfl, hvict⟩)).2.2
  · rintro hno i t query rfl j e he hgone
    obtain ⟨rfl, hvict⟩ := (sweep_removed_iff h he).mp hgone
    have hidle : Idle t query e := by simpa using find?_some hvict
    obtain ⟨⟨hage, hexp⟩, hup⟩ := hidle
    refine ⟨hage, hexp, ?_⟩
    by_contra hmoved
    -- a query that succeeds would have shown the packets
    cases hok : (query e.id).ok with
    | false => exact hno ⟨i, t, query, e, rfl, hvict, hok, hmoved⟩
    | true => exact hmoved (totalPkts_of_false hok hup)

omit h

/-- **The flow table is a map over whole runs; only a counter that moved and cannot be read makes a
sweep remove a flow that is not idle.** -/
theorem flowTable_iff (hn : nbFlows ≤ 2 ^ 15) (h0 : ftCreate nbFlows = some ft0)
    (h : Reach (step hz) (fun _ _ => True) ft0 ft) (ev : Ev) :
    (IsMap ft ∧ FailsClean hz ft ev ∧ SweepJustified ft ev) ↔ ¬ LostReading ft ev := by
  have hinv := inv_of_reach hn h0 h
  rw [sweepJustified_iff hinv]
  refine ⟨fun hall => hall.2.2, fun hno => ⟨isMap_of_inv hinv, ?_, hno⟩⟩
  rintro p env rfl hfail i
  exact handlePacket_failed hinv hfail i

/-! ### The table of the application -/

def appTable : Ft := ⟨16384, 16383, fun _ => [], 0, 0, 0, [], []⟩

theorem ftCreate_appTable : ftCreate SIMPLE_FWD_MAX_FLOWS = some appTable := by
  have hlog : clog 2 8096 = 13 := by
    refine le_antisymm (clog_le_of_le_pow (by decide)) ?_
    exact (lt_clog_iff_pow_lt (by decide)).mpr (by decide)
  have hsize : alignFlows (.ofNat 8096) = 16384 := by
    unfold alignFlows align32pow2
    rw [if_pos (by decide), show (ofNat 8096).toNat = 8096 from rfl, hlog]
    rfl
  show some (Ft.mk (alignFlows (.ofNat 8096)) (alignFlows (.ofNat 8096) - 1) _ _ _ _ _ _) = _
  rw [hsize]
  rfl

/-- A UDP packet, handled at the time 0 with an age of 5 seconds, and a sweep six seconds later in which
the counter has moved and the query fails. -/
def samplePkt : PktInfo :=
  ⟨0, 0, 7, ⟨IPV4, PROTO_UDP, 1, 2, 3, 4⟩, .none, 0, ⟨0, 0, 0, 0, 0, 0⟩⟩

def sampleEnv : PacketEnv := ⟨0, true, some (0, 5), 0⟩

def sampleFt : Ft := (handlePacket 1 appTable samplePkt sampleEnv).2

def lostSweep : Ev := .sweep 7 6 fun _ => ⟨1, false⟩

theorem sampleFt_reach : Reach (step 1) (fun _ _ => True) appTable sampleFt :=
  Reach.init.tail (e := .packet samplePkt sampleEnv) trivial rfl

/-- A query that fails makes the sweep remove a flow whose counter moved. -/
theorem flowTable_lostReading : ftCreate SIMPLE_FWD_MAX_FLOWS = some appTable ∧
      Reach (step 1) (fun _ _ => True) appTable sampleFt ∧ ¬ SweepJustified sampleFt lostSweep := by
  refine ⟨ftCreate_appTable, sampleFt_reach, fun hj => ?_⟩
  obtain ⟨e, he, hgone, hmoved⟩ : ∃ e ∈ sampleFt.buckets 7,
      (∀ e' ∈ (agingFtEntry sampleFt 7 6 fun _ => ⟨1, false⟩).2.buckets 7, e'.id ≠ e.id) ∧
        e.lastCounter = 0 := by decide +kernel
  have hsame := (hj 7 6 _ rfl 7 e he hgone).2.2
  rw [hmoved] at hsame
  exact absurd hsame (by decide)

theorem flowTable_iff_read : IsMap sampleFt ∧ FailsClean 1 sampleFt (.sweep 7 6 fun _ => ⟨1, true⟩) ∧
      SweepJustified sampleFt (.sweep 7 6 fun _ => ⟨1, true⟩) := by
  refine (flowTable_iff (by decide) ftCreate_appTable sampleFt_reach _).mpr ?_
  rintro ⟨i, t, query, e, heq, -, hok, -⟩
  cases heq
  cases hok

/-! ### The sizes of a table -/

def allocSize (size : UInt32) : UInt32 := .ofNat (80 + 16 * size.toNat)

structure SizingSound (nbFlows : Int) (ft0 : Ft) : Prop where
  pow : ∃ k, ft0.size.toNat = 2 ^ k
  room : 2 * nbFlows ≤ ft0.size.toNat
  mask : ft0.mask.toNat = ft0.size.toNat - 1
  alloc : 80 + 16 * ft0.size.toNat ≤ (allocSize ft0.size).toNat
  idx : ∀ rssHash, ft0.idx rssHash < ft0.size.toNat
  stored : ∀ hz ft pinfo key now, ft.mask = ft0.mask →
    (newEntry hz ft pinfo key now).bucketsIndex.toNat = ft.idx pinfo.rssHash

theorem idx_le_mask (ft : Ft) (rssHash : UInt32) : ft.idx rssHash ≤ ft.mask.toNat := by
  rw [Ft.idx, UInt32.toNat_and]
  exact Nat.and_le_right

/-- **When the sizes are sound**: an index has to fit into the 16 bits of `buckets_index`. -/
theorem sizingSound_iff (h0 : ftCreate nbFlows = some ft0) :
    SizingSound nbFlows ft0 ↔ nbFlows ≤ 2 ^ 15 := by
  constructor
  · intro h
    have hroom := h.room
    -- the last bucket
    have hlast := h.stored 0 ft0 { samplePkt with rssHash := -1 } ⟨0, 0, 0, 0, 0, 0, 0, 0, 0, 0⟩ 0 rfl
    have hlt := hlast ▸ UInt16.toNat_lt _
    rw [Ft.idx, UInt32.neg_one_and, h.mask] at hlt
    omega
  · intro hn
    obtain ⟨⟨k, hpow⟩, hroom, hbound⟩ := ftCreate_pow hn h0
    have hlow : 0 < ft0.size.toNat := hpow ▸ Nat.two_pow_pos _
    have hmask := ftCreate_mask h0 hlow
    refine ⟨⟨k, hpow⟩, hroom, hmask, ?_, fun rssHash => ?_, fun hz ft pinfo key now hft => ?_⟩
    · rw [allocSize, toNat_ofNat', mod_eq_of_lt (by omega)]
    · have hidx := idx_le_mask ft0 rssHash
      omega
    · have hidx := idx_le_mask ft pinfo.rssHash
      rw [hft] at hidx
      rw [newEntry, UInt16.toNat_ofNat', mod_eq_of_lt (by omega)]

theorem sizingSound_appTable : SizingSound SIMPLE_FWD_MAX_FLOWS appTable :=
  (sizingSound_iff ftCreate_appTable).mpr (by decide)

/-- With 65536 flows the last bucket is 131071, and 65535 is stored. -/
theorem bucketsIndex_truncated : ∃ ft0, ftCreate 65536 = some ft0 ∧ ft0.idx (-1) = 131071 ∧
    (newEntry 0 ft0 { samplePkt with rssHash := -1 } ⟨0, 0, 0, 0, 0, 0, 0, 0, 0, 0⟩ 0).bucketsIndex =
      65535 :=
  ⟨_, rfl, by decide, by decide⟩

end Runs

end Doca.SimpleFwd
