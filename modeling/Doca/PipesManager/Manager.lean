import Doca.Common.Error
import Doca.Lib.Interleaving
import Mathlib.Data.List.AList

/-!
# The pipes manager

`flow_pipes_manager.c`, which the applications with a remote flow service use to find pipes and entries by
ids. Five kinds of tables point at each other: pipe id to pipe information, entry id to pipe id, port id to
the table of the pipe ids of the port, that table itself, and the table of the entries of a pipe.

* `Manager`, `PipeInfo` — the tables. An `rte_hash` is an association list with one value per key; the
  tables of the ports are shared between the port and its pipes, and found by their address.
* `Call`, `exec` — one call and its result.

Principal results: `lookup_eraseAll` — what the loops over the entries of a pipe leave;
`flushPipes_spec` — what the loop over the pipes of a port leaves.
-/

namespace Doca.PipesManager

open Function

variable {P E : Type}

abbrev Hash (V : Type) := AList fun _ : UInt64 => V

structure PipeInfo (P E : Type) where
  pipe : P
  entriesTable : Hash E
  portIdToPipesTable : Nat

/-- `struct flow_pipes_manager`, and the tables of pipe ids created and not freed. The values of
`entry_id_to_pipe_id_table` point at keys of `pipe_id_to_pipe_info_table`, which stay as long as the
pipe. -/
structure Manager (P E : Type) where
  pipeIdToPipeInfo : Hash (PipeInfo P E)
  entryIdToPipeId : Hash UInt64
  portIdToPipesId : AList fun _ : UInt16 => Nat
  tables : Nat → Option (List UInt64)

def Manager.new : Manager P E := ⟨∅, ∅, ∅, fun _ => none⟩

namespace Manager

variable (m : Manager P E)

def addKey (table : Nat) (id : UInt64) : Manager P E :=
  let ids := (m.tables table).map fun ids => if id ∈ ids then ids else id :: ids
  { m with tables := update m.tables table ids }

def delKey (table : Nat) (id : UInt64) : Manager P E :=
  let ids := (m.tables table).map fun ids => ids.filter fun x => x ≠ id
  { m with tables := update m.tables table ids }

def newTable (table : Nat) : Manager P E :=
  { m with tables := update m.tables table (some []) }

def freeTable (table : Nat) : Manager P E :=
  { m with tables := update m.tables table none }

variable (pipeId : UInt64)

def setInfo (info : PipeInfo P E) : Manager P E :=
  { m with pipeIdToPipeInfo := m.pipeIdToPipeInfo.insert pipeId info }

end Manager

/-- The answers to `pipes_manager_pipe_create`: the address of a new table of pipe ids, which insertions
succeed, and whether `create_pipe_info` has memory. -/
structure CreateEnv where
  newTable : Option Nat
  addPipeId : Bool
  addPort : Bool
  pipeInfo : Bool
  addInfo : Bool
  deriving DecidableEq

variable (m : Manager P E) (pipeId : UInt64)

def undoCreate (portId : UInt16) (pipesTable : Nat)
    (isNewTable : Bool) : Manager P E :=
  let m := m.delKey pipesTable pipeId
  if isNewTable then
    { m with portIdToPipesId := m.portIdToPipesId.erase portId }.freeTable pipesTable
  else m

def registerPipe (pipe : P) (pipeId : UInt64) (portId : UInt16) (pipesTable : Nat)
    (isNewTable : Bool) (env : CreateEnv) : DocaError × Manager P E :=
  if env.pipeInfo then
    if env.addInfo then (.success, m.setInfo pipeId ⟨pipe, ∅, pipesTable⟩)
    else (.invalidValue, undoCreate m pipeId portId pipesTable isNewTable)
  else (.noMemory, undoCreate m pipeId portId pipesTable isNewTable)

/-- `pipes_manager_pipe_create`; `pipeId` is the answer of `generateID`. -/
def pipeCreate (pipe : P) (pipeId : UInt64) (portId : UInt16) (env : CreateEnv) :
    DocaError × Manager P E :=
  if pipeId ∈ m.pipeIdToPipeInfo then (.invalidValue, m)
  else
    match m.portIdToPipesId.lookup portId with
    | none =>
      match env.newTable with
      | none => (.noMemory, m)
      | some pipesTable =>
        let m := m.newTable pipesTable
        if env.addPipeId then
          let m := m.addKey pipesTable pipeId
          if env.addPort then
            registerPipe { m with portIdToPipesId := m.portIdToPipesId.insert portId pipesTable }
              pipe pipeId portId pipesTable true env
          else (.invalidValue, (m.delKey pipesTable pipeId).freeTable pipesTable)
        else (.invalidValue, m.freeTable pipesTable)
    | some pipesTable =>
      if env.addPipeId then
        registerPipe (m.addKey pipesTable pipeId) pipe pipeId portId pipesTable false env
      else (.invalidValue, m)

/-- The answers to `pipes_manager_pipe_add_entry`: the address of the generated id, and which insertions
succeed. -/
structure AddEnv where
  entryIdAddr : UInt64
  addEntry : Bool
  addPipeId : Bool
  deriving DecidableEq

/-- `pipes_manager_pipe_add_entry`; `entryId` is the answer of `generateID`. -/
def pipeAddEntry (entry : E) (entryId pipeId : UInt64) (env : AddEnv) :
    DocaError × Manager P E :=
  match m.pipeIdToPipeInfo.lookup pipeId with
  | none => (.invalidValue, m)
  | some info =>
    -- the lookup is given `&generated_entry_id`: the address of the id is compared, not the id
    if env.entryIdAddr ∈ info.entriesTable then (.invalidValue, m)
    else if env.addEntry then
      let info := { info with entriesTable := info.entriesTable.insert entryId entry }
      let m := m.setInfo pipeId info
      if env.addPipeId then
        (.success, { m with entryIdToPipeId := m.entryIdToPipeId.insert entryId pipeId })
      else
        (.invalidValue,
          m.setInfo pipeId { info with entriesTable := info.entriesTable.erase entryId })
    else (.invalidValue, m)

def getPipe : Except DocaError P :=
  match m.pipeIdToPipeInfo.lookup pipeId with
  | none => .error .notFound
  | some info => .ok info.pipe

def getEntry (entryId : UInt64) : Except DocaError E :=
  match m.entryIdToPipeId.lookup entryId with
  | none => .error .notFound
  | some pipeId =>
    match m.pipeIdToPipeInfo.lookup pipeId with
    | none => .error .notFound
    | some info =>
      match info.entriesTable.lookup entryId with
      | none => .error .notFound
      | some entry => .ok entry

def eraseAll (t : Hash UInt64) (keys : List UInt64) : Hash UInt64 := keys.foldl (fun t k => t.erase k) t

def pipeDestroy : DocaError × Manager P E :=
  match m.pipeIdToPipeInfo.lookup pipeId with
  | none => (.invalidValue, m)
  | some info =>
    if pipeId ∈ (m.tables info.portIdToPipesTable).getD [] then
      let m := m.delKey info.portIdToPipesTable pipeId
      (.success, { m with
          entryIdToPipeId := eraseAll m.entryIdToPipeId info.entriesTable.keys
          pipeIdToPipeInfo := m.pipeIdToPipeInfo.erase pipeId })
    else (.notFound, m)

def pipeRmEntry (entryId : UInt64) : DocaError × Manager P E :=
  match m.entryIdToPipeId.lookup entryId with
  | none => (.invalidValue, m)
  | some pipeId =>
    match m.pipeIdToPipeInfo.lookup pipeId with
    | none => (.invalidValue, m)
    | some info =>
      let m := { m with entryIdToPipeId := m.entryIdToPipeId.erase entryId }
      if entryId ∈ info.entriesTable then
        (.success, m.setInfo pipeId { info with entriesTable := info.entriesTable.erase entryId })
      else (.notFound, m)

def flushPipe : Manager P E :=
  match m.pipeIdToPipeInfo.lookup pipeId with
  | none => m
  | some info =>
    { m with
      entryIdToPipeId := eraseAll m.entryIdToPipeId info.entriesTable.keys
      pipeIdToPipeInfo := m.pipeIdToPipeInfo.erase pipeId }

def pipesFlush (portId : UInt16) : DocaError × Manager P E :=
  match m.portIdToPipesId.lookup portId with
  | none => (.invalidValue, m)
  | some pipesTable =>
    let m := ((m.tables pipesTable).getD []).foldl flushPipe m
    let m := m.freeTable pipesTable
    (.success, { m with portIdToPipesId := m.portIdToPipesId.erase portId })

inductive Call (P E : Type) where
  | create (pipe : P) (pipeId : UInt64) (portId : UInt16) (env : CreateEnv)
  | addEntry (entry : E) (entryId pipeId : UInt64) (env : AddEnv)
  | rmEntry (entryId : UInt64)
  | destroy (pipeId : UInt64)
  | flush (portId : UInt16)

def exec : Call P E → DocaError × Manager P E
  | .create pipe pipeId portId env => pipeCreate m pipe pipeId portId env
  | .addEntry entry entryId pipeId env => pipeAddEntry m entry entryId pipeId env
  | .rmEntry entryId => pipeRmEntry m entryId
  | .destroy pipeId => pipeDestroy m pipeId
  | .flush portId => pipesFlush m portId

section Lookup

variable {α V : Type} [DecidableEq α] (t : AList fun _ : α => V) (k : α)

theorem lookup_insert_eq (v : V) (q : α) :
    (t.insert k v).lookup q = if q = k then some v else t.lookup q := by
  split
  · rename_i hq
    rw [hq, AList.lookup_insert]
  · rename_i hq
    rw [AList.lookup_insert_ne hq]

theorem lookup_erase_eq (q : α) : (t.erase k).lookup q = if q = k then none else t.lookup q := by
  split
  · rename_i hq
    rw [hq, AList.lookup_erase]
  · rename_i hq
    rw [AList.lookup_erase_ne hq]

end Lookup

/-! ## The loops -/

theorem lookup_eraseAll (t : Hash UInt64) (keys : List UInt64) (e : UInt64) :
    (eraseAll t keys).lookup e = if e ∈ keys then none else t.lookup e := by
  unfold eraseAll
  induction keys generalizing t with
  | nil => simp
  | cons k rest ih =>
    rw [List.foldl_cons, ih]
    by_cases hk : e = k
    · subst hk
      simp
    · simp [hk]

theorem mem_keys_iff {V : Type} {t : Hash V} {e : UInt64} : e ∈ t.keys ↔ ∃ v, t.lookup e = some v := by
  rw [← AList.mem_keys, ← AList.lookup_isSome, Option.isSome_iff_exists]

theorem flushPipe_portIdToPipesId :
    (flushPipe m pipeId).portIdToPipesId = m.portIdToPipesId ∧ (flushPipe m pipeId).tables = m.tables := by
  unfold flushPipe
  split <;> exact ⟨rfl, rfl⟩

theorem flushPipe_lookup (pipeId p : UInt64) :
    (flushPipe m pipeId).pipeIdToPipeInfo.lookup p =
      if p = pipeId then none else m.pipeIdToPipeInfo.lookup p := by
  unfold flushPipe
  split
  · rename_i hnone
    split
    · rename_i hp
      rw [hp, hnone]
    · rfl
  · exact lookup_erase_eq ..

def Manager.Holds (pipeId entryId : UInt64) (entry : E) : Prop :=
  ∃ info, m.pipeIdToPipeInfo.lookup pipeId = some info ∧ info.entriesTable.lookup entryId = some entry

theorem flushPipe_holds {m : Manager P E} {pipeId p e : UInt64} {x : E} :
    (flushPipe m pipeId).Holds p e x ↔ p ≠ pipeId ∧ m.Holds p e x := by
  unfold Manager.Holds
  rw [flushPipe_lookup]
  by_cases hp : p = pipeId
  · simp [hp]
  · simp [hp]

theorem flushPipe_entry {m : Manager P E} {pipeId e p : UInt64} :
    (flushPipe m pipeId).entryIdToPipeId.lookup e = some p ↔
      m.entryIdToPipeId.lookup e = some p ∧ ∀ x, ¬ m.Holds pipeId e x := by
  unfold flushPipe Manager.Holds
  split
  · rename_i hnone
    simp [hnone]
  · rename_i info hinfo
    dsimp only
    rw [lookup_eraseAll, hinfo]
    by_cases hkey : e ∈ info.entriesTable.keys
    · obtain ⟨x, hx⟩ := mem_keys_iff.mp hkey
      simp [hkey, hx]
    · have hno : ∀ x, info.entriesTable.lookup e ≠ some x := fun x hx => hkey (mem_keys_iff.mpr ⟨x, hx⟩)
      simp [hkey, hno]

/-- **The loop over the pipes of a port**: the pipes and their entries are gone, everything else is as it
was. -/
theorem flushPipes_spec (ids : List UInt64) :
    (ids.foldl flushPipe m).portIdToPipesId = m.portIdToPipesId ∧
    (ids.foldl flushPipe m).tables = m.tables ∧
    (∀ p, (ids.foldl flushPipe m).pipeIdToPipeInfo.lookup p =
      if p ∈ ids then none else m.pipeIdToPipeInfo.lookup p) ∧
    ∀ e p, (ids.foldl flushPipe m).entryIdToPipeId.lookup e = some p ↔
      m.entryIdToPipeId.lookup e = some p ∧ ∀ q ∈ ids, ∀ x, ¬ m.Holds q e x := by
  induction ids generalizing m with
  | nil => simp
  | cons pipeId rest ih =>
    obtain ⟨hports, htables, hinfo, hentry⟩ := ih (flushPipe m pipeId)
    obtain ⟨hports', htables'⟩ := flushPipe_portIdToPipesId m pipeId
    refine ⟨hports.trans hports', htables.trans htables', fun p => ?_, fun e p => ?_⟩
    · rw [List.foldl_cons, hinfo, flushPipe_lookup]
      by_cases hp : p = pipeId
      · simp [hp]
      · simp [hp]
    · rw [List.foldl_cons, hentry, flushPipe_entry]
      constructor
      · rintro ⟨⟨hp, hfirst⟩, hrest⟩
        refine ⟨hp, fun q hq x hx => ?_⟩
        -- a pipe that is twice in the list is gone the second time
        by_cases hqp : q = pipeId
        · exact hfirst x (hqp ▸ hx)
        · exact hrest q (List.mem_of_ne_of_mem hqp hq) x (flushPipe_holds.mpr ⟨hqp, hx⟩)
      · rintro ⟨hp, hall⟩
        refine ⟨⟨hp, hall pipeId List.mem_cons_self⟩, fun q hq x hx => ?_⟩
        exact hall q (List.mem_cons_of_mem _ hq) x (flushPipe_holds.mp hx).2

end Doca.PipesManager
