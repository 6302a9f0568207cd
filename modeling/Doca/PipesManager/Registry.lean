import Doca.PipesManager.Manager

/-!
# The pipes manager as a registry

What the pipes manager is for: a registry of pipes, each with its port, and of entries, each with its pipe.

* `Registry`, `spec` — the registry and what a successful call does to it.
* `Refines` — the tables of the manager hold the registry.
* `Same` — the tables hold what they held before.

Principal results: `same_undoCreate`, `same_undoCreate_new` — the roll-back of
`pipes_manager_pipe_create` leaves the tables as they were.
-/

namespace Doca.PipesManager

open Function

variable {P E : Type}

/-! ## The registry -/

structure Registry (P E : Type) where
  pipes : UInt64 → Option (P × UInt16)
  entries : UInt64 → Option (E × UInt64)

def Registry.empty : Registry P E := ⟨fun _ => none, fun _ => none⟩

def spec (R : Registry P E) : Call P E → Registry P E
  | .create pipe pipeId portId _ =>
    { R with pipes := update R.pipes pipeId (some (pipe, portId)) }
  | .addEntry entry entryId pipeId _ =>
    { R with entries := update R.entries entryId (some (entry, pipeId)) }
  | .rmEntry entryId => { R with entries := update R.entries entryId none }
  | .destroy pipeId =>
    ⟨update R.pipes pipeId none, fun e => (R.entries e).filter fun x => x.2 ≠ pipeId⟩
  | .flush portId =>
    ⟨fun p => (R.pipes p).filter fun x => x.2 ≠ portId,
      fun e => (R.entries e).filter fun x => (R.pipes x.2).all fun y => y.2 ≠ portId⟩

def Manager.InPort (m : Manager P E) (portId : UInt16) (pipeId : UInt64) : Prop :=
  ∃ table ids, m.portIdToPipesId.lookup portId = some table ∧ m.tables table = some ids ∧ pipeId ∈ ids

structure Refines (m : Manager P E) (R : Registry P E) : Prop where
  pipes : ∀ {p pipe}, (∃ info, m.pipeIdToPipeInfo.lookup p = some info ∧ info.pipe = pipe) ↔
    ∃ portId, R.pipes p = some (pipe, portId)
  ports : ∀ {portId p}, m.InPort portId p ↔ ∃ pipe, R.pipes p = some (pipe, portId)
  entryPipe : ∀ {e p}, m.entryIdToPipeId.lookup e = some p ↔ ∃ x, R.entries e = some (x, p)
  holds : ∀ {p e x}, m.Holds p e x ↔ R.entries e = some (x, p)
  infoPort : ∀ {p info}, m.pipeIdToPipeInfo.lookup p = some info →
    ∃ pipe portId, R.pipes p = some (pipe, portId) ∧
      m.portIdToPipesId.lookup portId = some info.portIdToPipesTable
  tableOf : ∀ {portId table}, m.portIdToPipesId.lookup portId = some table →
    ∃ ids, m.tables table = some ids
  portInj : ∀ {portId portId' table}, m.portIdToPipesId.lookup portId = some table →
    m.portIdToPipesId.lookup portId' = some table → portId = portId'

variable {m m' : Manager P E} {R : Registry P E}

variable {portId : UInt16} {table : Nat} {ids : List UInt64} {p : UInt64}

theorem Refines.mem_table (h : Refines m R) (hport : m.portIdToPipesId.lookup portId = some table)
    (hids : m.tables table = some ids) : p ∈ ids ↔ ∃ pipe, R.pipes p = some (pipe, portId) := by
  rw [← h.ports]
  constructor
  · exact fun hp => ⟨table, ids, hport, hids, hp⟩
  · rintro ⟨table', ids', hport', hids', hp⟩
    cases hport.symm.trans hport'
    cases hids.symm.trans hids'
    exact hp

theorem Refines.not_inPort (h : Refines m R) (hp : p ∉ m.pipeIdToPipeInfo) (portId : UInt16) :
    ¬ m.InPort portId p := by
  rw [h.ports]
  rintro ⟨pipe, hR⟩
  obtain ⟨info, hinfo, -⟩ := h.pipes.mpr ⟨portId, hR⟩
  rw [AList.lookup_eq_none.mpr hp] at hinfo
  cases hinfo

/-! ## Calls that fail -/

structure Same (m m' : Manager P E) : Prop where
  pipes : ∀ p, m'.pipeIdToPipeInfo.lookup p = m.pipeIdToPipeInfo.lookup p
  entries : ∀ e, m'.entryIdToPipeId.lookup e = m.entryIdToPipeId.lookup e
  ports : ∀ portId, m'.portIdToPipesId.lookup portId = m.portIdToPipesId.lookup portId
  tables : m'.tables = m.tables

theorem Same.refl (m : Manager P E) : Same m m := ⟨fun _ => rfl, fun _ => rfl, fun _ => rfl, rfl⟩

theorem Same.inPort (h : Same m m') : m'.InPort portId p ↔ m.InPort portId p := by
  unfold Manager.InPort
  rw [h.ports, h.tables]

theorem Same.refines (h : Same m m') (hR : Refines m R) : Refines m' R where
  pipes {p pipe} := by rw [h.pipes]; exact hR.pipes
  ports := h.inPort.trans hR.ports
  entryPipe {e p} := by rw [h.entries]; exact hR.entryPipe
  holds {p e x} := by
    unfold Manager.Holds
    rw [h.pipes]
    exact hR.holds
  infoPort {p info} hinfo := by
    rw [h.pipes] at hinfo
    obtain ⟨pipe, portId, hpipe, hport⟩ := hR.infoPort hinfo
    exact ⟨pipe, portId, hpipe, (h.ports portId).trans hport⟩
  tableOf {portId table} hport := by
    rw [h.ports] at hport
    rw [h.tables]
    exact hR.tableOf hport
  portInj hport hport' := hR.portInj ((h.ports _).symm.trans hport) ((h.ports _).symm.trans hport')

variable {id : UInt64}

theorem addKey_tables (hids : m.tables table = some ids) (hid : id ∉ ids) :
    (m.addKey table id).tables = update m.tables table (some (id :: ids)) := by
  unfold Manager.addKey
  dsimp only
  rw [hids, Option.map_some, if_neg hid]

theorem delKey_tables (hids : m.tables table = some ids) : (m.delKey table id).tables =
      update m.tables table (some (ids.filter fun x => x ≠ id)) := by
  unfold Manager.delKey
  dsimp only
  rw [hids, Option.map_some]

theorem delKey_addKey (hids : m.tables table = some ids) (hid : id ∉ ids) :
    ((m.addKey table id).delKey table id).tables = m.tables := by
  have hadd := addKey_tables hids hid
  have hself : (m.addKey table id).tables table = some (id :: ids) := by rw [hadd, update_self]
  have hfilter : (id :: ids).filter (fun x => x ≠ id) = ids := by
    rw [List.filter_cons_of_neg (by simp), List.filter_eq_self.mpr]
    intro x hx
    simpa using fun heq : x = id => hid (heq ▸ hx)
  rw [delKey_tables hself, hadd, update_idem, hfilter, ← hids, update_eq_self]

theorem freeTable_new {v : Option (List UInt64)} (hnew : m.tables table = none) :
    update (update m.tables table v) table none = m.tables := by
  rw [update_idem, ← hnew, update_eq_self]

/-- `rte_hash_create` gives a table that is not in use, and `generateID` does not give the id of another
entry that is registered. -/
def Distinct (m : Manager P E) : Call P E → Prop
  | .create _ _ _ env => ∀ table, env.newTable = some table → m.tables table = none
  | .addEntry entry entryId _ _ => ∀ p x, m.Holds p entryId x → x = entry
  | _ => True

/-- The entry is registered already: it is entered into the table of another pipe, or the roll-back takes
it out of its own. -/
def AddsTwice (m : Manager P E) : Call P E → Prop
  | .addEntry _ entryId pipeId env =>
    ∃ p info, m.entryIdToPipeId.lookup entryId = some p ∧
      m.pipeIdToPipeInfo.lookup pipeId = some info ∧ env.entryIdAddr ∉ info.entriesTable ∧
      env.addEntry = true ∧ (p ≠ pipeId ↔ env.addPipeId = true)
  | _ => False

theorem same_undoCreate (h : Refines m R) (hport : m.portIdToPipesId.lookup portId = some table)
    (hp : p ∉ m.pipeIdToPipeInfo) :
    Same m (undoCreate (m.addKey table p) p portId table false) := by
  obtain ⟨ids, hids⟩ := h.tableOf hport
  have hid : p ∉ ids := fun hno => h.not_inPort hp portId ⟨table, ids, hport, hids, hno⟩
  exact ⟨fun _ => rfl, fun _ => rfl, fun _ => rfl, delKey_addKey hids hid⟩

theorem same_undoCreate_new (hport : m.portIdToPipesId.lookup portId = none)
    (hnew : m.tables table = none) :
    Same m (undoCreate { (m.newTable table).addKey table p with
      portIdToPipesId := m.portIdToPipesId.insert portId table } p portId table true) := by
  refine ⟨fun _ => rfl, fun _ => rfl, fun portId' => ?_, ?_⟩
  · show ((m.portIdToPipesId.insert portId table).erase portId).lookup portId' = _
    rw [lookup_erase_eq, lookup_insert_eq]
    split
    · rename_i hp
      rw [hp, hport]
    · rfl
  · show update (update (update (update m.tables table _) table _) table _) table none = m.tables
    rw [update_idem, update_idem]
    exact freeTable_new hnew

theorem erase_insert {V : Type} {t : Hash V} {k : UInt64} {v : V} (hk : k ∉ t) :
    (t.insert k v).erase k = t := by
  refine AList.ext ?_
  show List.kerase k (t.insert k v).entries = t.entries
  rw [AList.entries_insert_of_notMem hk]
  exact @List.kerase_cons_eq UInt64 (fun _ => V) _ k ⟨k, v⟩ _ rfl

end Doca.PipesManager
