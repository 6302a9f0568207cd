import Doca.PipesManager.Registry

/-!
# The pipes manager refines its registry

What the calls of the pipes manager do to its tables, and the registry over whole runs.

* `Settles` — a call fails and changes nothing, or does to the tables what it does to the registry:
  `settles`, `same_of_error`, `refines_exec`.
* `Sys`, `step` — the manager and the registry side by side; `refines_of_reach` for any run,
  `lookups_of_registry` for two.

Principal results: `registry_iff` — after any run the tables agree with the registry and with each
other, lookups give exactly what is registered, and a call that fails changes nothing, exactly if the
call does not register an entry for the second time; `entry_in_two_pipes`; `duplicate_refused_iff`.
-/

namespace Doca.PipesManager

open Doca.Lib Function Option

variable {P E : Type} {m m' : Manager P E} {R : Registry P E}
variable {p : UInt64} {portId : UInt16} {table : Nat}

/-! ## Calls that succeed -/

def Manager.newPort (m : Manager P E) (portId : UInt16) (table : Nat) (p : UInt64) : Manager P E :=
  { (m.newTable table).addKey table p with portIdToPipesId := m.portIdToPipesId.insert portId table }

theorem newPort_tables : (m.newPort portId table p).tables = update m.tables table (some [p]) := by
  have hself : (m.newTable table).tables table = some [] := update_self ..
  show ((m.newTable table).addKey table p).tables = _
  rw [addKey_tables hself List.not_mem_nil]
  exact update_idem ..

section

variable (h : Refines m R)

include h

theorem refines_register {m0 : Manager P E} {pipe : P} {ids : List UInt64}
    (hp : p ∉ m.pipeIdToPipeInfo) (hpipes : m0.pipeIdToPipeInfo = m.pipeIdToPipeInfo)
    (hentries : m0.entryIdToPipeId = m.entryIdToPipeId)
    (hport : ∀ portId', m0.portIdToPipesId.lookup portId' =
      if portId' = portId then some table else m.portIdToPipesId.lookup portId')
    (htables : m0.tables = update m.tables table (some (p :: ids)))
    (hids : ∀ {q}, q ∈ ids ↔ m.InPort portId q)
    (hown : ∀ {t}, m.portIdToPipesId.lookup portId = some t → t = table)
    (hother : ∀ {portId' t}, portId' ≠ portId → m.portIdToPipesId.lookup portId' = some t → t ≠ table) :
    Refines (m0.setInfo p ⟨pipe, ∅, table⟩)
      { R with pipes := update R.pipes p (some (pipe, portId)) } := by
  have hlookup : ∀ q, (m0.setInfo p ⟨pipe, ∅, table⟩).pipeIdToPipeInfo.lookup q =
      if q = p then some ⟨pipe, ∅, table⟩ else m.pipeIdToPipeInfo.lookup q := by
    rw [← hpipes]
    exact lookup_insert_eq _ p _
  have hnone : m.pipeIdToPipeInfo.lookup p = none := AList.lookup_eq_none.mpr hp
  have hcases : ∀ {portId' t}, m0.portIdToPipesId.lookup portId' = some t →
      portId' = portId ∧ t = table ∨ m.portIdToPipesId.lookup portId' = some t ∧ t ≠ table := by
    intro portId' t ht
    rw [hport] at ht
    split at ht
    · cases ht
      exact .inl ⟨‹_›, rfl⟩
    · exact .inr ⟨ht, hother ‹_› ht⟩
  have hin : ∀ {portId' q}, m0.InPort portId' q ↔ (portId' = portId ∧ q = p) ∨ m.InPort portId' q := by
    intro portId' q
    by_cases hp' : portId' = portId
    · subst hp'
      rw [← hids]
      simp [Manager.InPort, hport, htables]
    · rw [or_iff_right fun hno => hp' hno.1]
      unfold Manager.InPort
      rw [hport, if_neg hp', htables]
      refine exists_congr fun t => exists_congr fun ids' => and_congr_right fun ht => ?_
      rw [update_of_ne (hother hp' ht)]
  refine ⟨fun {q pipe'} => ?_, fun {portId' q} => ?_, fun {e q} => ?_, fun {q e x} => ?_,
    fun {q info} hinfo => ?_, fun {portId' t} ht => ?_, fun {portId' portId'' t} ht ht' => ?_⟩
  · rw [hlookup]
    by_cases hq : q = p
    · subst hq
      simp
    · simpa [hq] using h.pipes
  · show m0.InPort portId' q ↔ _
    rw [hin]
    by_cases hq : q = p
    · subst hq
      have hno := h.not_inPort hp portId'
      simp only [update_self, some.injEq, Prod.mk.injEq, hno, or_false, and_true]
      exact ⟨fun heq => ⟨pipe, rfl, heq.symm⟩, fun hex => hex.choose_spec.2.symm⟩
    · simp only [hq, and_false, false_or, update_of_ne hq]
      exact h.ports
  · show m0.entryIdToPipeId.lookup e = some q ↔ _
    rw [hentries]
    exact h.entryPipe
  · show (∃ info, _ ∧ _) ↔ R.entries e = some (x, q)
    rw [hlookup, ← h.holds]
    unfold Manager.Holds
    by_cases hq : q = p
    · subst hq
      simp [hnone]
    · simp [hq]
  · rw [hlookup] at hinfo
    by_cases hq : q = p
    · subst hq
      rw [if_pos rfl] at hinfo
      cases hinfo
      exact ⟨pipe, portId, update_self .., (hport portId).trans (if_pos rfl)⟩
    · rw [if_neg hq] at hinfo
      obtain ⟨pipe', portId', hR, hport'⟩ := h.infoPort hinfo
      refine ⟨pipe', portId', (update_of_ne hq ..).trans hR, (hport portId').trans ?_⟩
      split
      · rename_i hp'
        exact congrArg some (hown (hp' ▸ hport')).symm
      · exact hport'
  · show ∃ ids', m0.tables t = some ids'
    rw [htables]
    obtain ⟨-, rfl⟩ | ⟨ht, hne⟩ := hcases ht
    · exact ⟨_, update_self ..⟩
    · obtain ⟨ids', hids'⟩ := h.tableOf ht
      exact ⟨ids', (update_of_ne hne ..).trans hids'⟩
  · obtain ⟨rfl, rfl⟩ | ⟨ht, hne⟩ := hcases ht
    · obtain ⟨rfl, -⟩ | ⟨-, hne⟩ := hcases ht'
      · rfl
      · exact absurd rfl hne
    · obtain ⟨-, rfl⟩ | ⟨ht', -⟩ := hcases ht'
      · exact absurd rfl hne
      · exact h.portInj ht ht'

theorem refines_newPort {pipe : P} (hp : p ∉ m.pipeIdToPipeInfo)
    (hport : m.portIdToPipesId.lookup portId = none) (hnew : m.tables table = none) :
    Refines ((m.newPort portId table p).setInfo p ⟨pipe, ∅, table⟩)
      { R with pipes := update R.pipes p (some (pipe, portId)) } := by
  refine refines_register h hp rfl rfl (lookup_insert_eq _ portId table) newPort_tables (fun {q} => ?_)
    (fun ht => ?_) fun {portId' t} _ ht htable => ?_
  · rw [Manager.InPort, hport]
    simp
  · cases hport.symm.trans ht
  · obtain ⟨ids, hids⟩ := h.tableOf ht
    cases hnew.symm.trans (htable ▸ hids)

theorem refines_addKey {pipe : P} (hp : p ∉ m.pipeIdToPipeInfo)
    (hport : m.portIdToPipesId.lookup portId = some table) :
    Refines ((m.addKey table p).setInfo p ⟨pipe, ∅, table⟩)
      { R with pipes := update R.pipes p (some (pipe, portId)) } := by
  obtain ⟨ids, hids⟩ := h.tableOf hport
  have hmem : ∀ {q}, q ∈ ids ↔ m.InPort portId q := (h.mem_table hport hids).trans h.ports.symm
  refine refines_register h hp rfl rfl (fun portId' => ?_)
    (addKey_tables hids fun hno => h.not_inPort hp portId (hmem.mp hno)) hmem
    (fun ht => some.inj (ht.symm.trans hport)) fun hne ht htable => hne (h.portInj (htable ▸ ht) hport)
  show m.portIdToPipesId.lookup portId' = _
  split
  · rename_i hp'
    rw [hp', hport]
  · rfl

theorem refines_setEntry {info : PipeInfo P E} {t : Hash UInt64} {es : Hash E} {e : UInt64}
    {v : Option E} (hinfo : m.pipeIdToPipeInfo.lookup p = some info)
    (hsame : ∀ x q, R.entries e = some (x, q) → q = p)
    (ht : ∀ e', t.lookup e' = if e' = e then v.map fun _ => p else m.entryIdToPipeId.lookup e')
    (hes : ∀ e', es.lookup e' = if e' = e then v else info.entriesTable.lookup e') :
    Refines ({ m with entryIdToPipeId := t }.setInfo p { info with entriesTable := es })
      { R with entries := update R.entries e (v.map (·, p)) } := by
  have hlookup : ∀ q, ({ m with entryIdToPipeId := t }.setInfo p
      { info with entriesTable := es }).pipeIdToPipeInfo.lookup q =
        if q = p then some { info with entriesTable := es } else m.pipeIdToPipeInfo.lookup q :=
    lookup_insert_eq m.pipeIdToPipeInfo p _
  refine ⟨fun {q pipe} => ?_, h.ports, fun {e' q} => ?_, fun {q e' x} => ?_, fun {q info'} hinfo' => ?_,
    h.tableOf, h.portInj⟩
  · rw [hlookup, ← h.pipes]
    by_cases hq : q = p
    · subst hq
      simp [hinfo]
    · simp [hq]
  · show t.lookup e' = some q ↔ _
    rw [ht]
    by_cases he : e' = e
    · subst he
      cases v <;> simp
    · rw [if_neg he, h.entryPipe]
      simp [he]
  · show (∃ info, _ ∧ _) ↔ update R.entries e _ e' = some (x, q)
    rw [hlookup]
    by_cases he : e' = e
    · subst he
      rw [update_self]
      by_cases hq : q = p
      · subst hq
        cases v <;> simp [hes]
      · -- another pipe does not have the entry
        have hno : ¬ m.Holds q e' x := fun hholds => hq (hsame x q (h.holds.mp hholds))
        rw [if_neg hq]
        exact iff_of_false hno (by cases v <;> simp [Ne.symm hq])
    · rw [update_of_ne he, ← h.holds]
      unfold Manager.Holds
      by_cases hq : q = p
      · subst hq
        simp [hinfo, hes, he]
      · simp [hq]
  · rw [hlookup] at hinfo'
    by_cases hq : q = p
    · subst hq
      rw [if_pos rfl] at hinfo'
      cases hinfo'
      obtain ⟨pipe, portId, hR, hport⟩ := h.infoPort hinfo
      exact ⟨pipe, portId, hR, hport⟩
    · rw [if_neg hq] at hinfo'
      exact h.infoPort hinfo'

theorem refines_remove {R' : Registry P E} (D : UInt64 → Prop)
    (hinfo : ∀ {q info}, m'.pipeIdToPipeInfo.lookup q = some info ↔
      m.pipeIdToPipeInfo.lookup q = some info ∧ ¬ D q)
    (hentry : ∀ {e q}, m'.entryIdToPipeId.lookup e = some q ↔ m.entryIdToPipeId.lookup e = some q ∧ ¬ D q)
    (hin : ∀ {portId q}, m'.InPort portId q ↔ m.InPort portId q ∧ ¬ D q)
    (hkeep : ∀ {q pipe portId table}, R.pipes q = some (pipe, portId) → ¬ D q →
      m.portIdToPipesId.lookup portId = some table → m'.portIdToPipesId.lookup portId = some table)
    (hback : ∀ {portId table}, m'.portIdToPipesId.lookup portId = some table →
      m.portIdToPipesId.lookup portId = some table ∧ ∃ ids, m'.tables table = some ids)
    (hpipes : ∀ {q v}, R'.pipes q = some v ↔ R.pipes q = some v ∧ ¬ D q)
    (hentries : ∀ {e x q}, R'.entries e = some (x, q) ↔ R.entries e = some (x, q) ∧ ¬ D q) :
    Refines m' R' where
  pipes {p pipe} := by simp only [hinfo, hpipes, and_right_comm, exists_and_right, h.pipes]
  ports {portId p} := by simp only [hin, hpipes, exists_and_right, h.ports]
  entryPipe {e p} := by simp only [hentry, hentries, exists_and_right, h.entryPipe]
  holds {p e x} := by
    rw [hentries, ← h.holds, Manager.Holds, Manager.Holds, ← exists_and_right]
    simp only [hinfo, and_right_comm]
  infoPort {p info} hp := by
    obtain ⟨hp, hD⟩ := hinfo.mp hp
    obtain ⟨pipe, portId, hR, hport⟩ := h.infoPort hp
    exact ⟨pipe, portId, hpipes.mpr ⟨hR, hD⟩, hkeep hR hD hport⟩
  tableOf ht := (hback ht).2
  portInj ht ht' := h.portInj (hback ht).1 (hback ht').1

theorem refines_destroy {info : PipeInfo P E} (hinfo : m.pipeIdToPipeInfo.lookup p = some info) :
    Refines { m.delKey info.portIdToPipesTable p with
        entryIdToPipeId := eraseAll m.entryIdToPipeId info.entriesTable.keys
        pipeIdToPipeInfo := m.pipeIdToPipeInfo.erase p }
      (spec R (.destroy p)) := by
  obtain ⟨pipe, portId, hR, hport⟩ := h.infoPort hinfo
  obtain ⟨ids, hids⟩ := h.tableOf hport
  have hdel := @delKey_tables P E m _ ids p hids
  refine refines_remove h (· = p) (fun {q info'} => ?_) (fun {e q} => ?_) (fun {portId' q} => ?_)
    (fun _ _ ht => ht) (fun {portId' t} ht => ⟨ht, ?_⟩) (fun {q v} => ?_) (fun {e x q} => ?_)
  · rw [lookup_erase_eq]
    by_cases hq : q = p <;> simp [hq]
  · have hkey : e ∈ info.entriesTable.keys ↔ m.entryIdToPipeId.lookup e = some p := by
      rw [mem_keys_iff, h.entryPipe]
      refine exists_congr fun x => ?_
      rw [← h.holds, Manager.Holds, hinfo]
      simp
    show (eraseAll m.entryIdToPipeId info.entriesTable.keys).lookup e = some q ↔ _
    rw [lookup_eraseAll]
    split
    · rename_i he
      simp [hkey.mp he, eq_comm]
    · rename_i he
      exact (and_iff_left_of_imp fun hq (hqp : q = p) => he (hkey.mpr (hqp ▸ hq))).symm
  · -- the pipe was in the table of its own port only
    show (∃ t ids', m.portIdToPipesId.lookup portId' = some t ∧
      (m.delKey info.portIdToPipesTable p).tables t = some ids' ∧ q ∈ ids') ↔ _
    rw [hdel]
    constructor
    · rintro ⟨t, ids', ht, hids', hq⟩
      by_cases htable : t = info.portIdToPipesTable
      · subst htable
        rw [update_self] at hids'
        cases hids'
        obtain ⟨hq, hne⟩ := List.mem_filter.mp hq
        exact ⟨⟨_, ids, ht, hids, hq⟩, by simpa using hne⟩
      · rw [update_of_ne htable] at hids'
        refine ⟨⟨t, ids', ht, hids', hq⟩, ?_⟩
        rintro rfl
        obtain ⟨pipe', hR'⟩ := h.ports.mp ⟨t, ids', ht, hids', hq⟩
        cases hR.symm.trans hR'
        cases hport.symm.trans ht
        exact htable rfl
    · rintro ⟨⟨t, ids', ht, hids', hq⟩, hne⟩
      by_cases htable : t = info.portIdToPipesTable
      · subst htable
        cases hids.symm.trans hids'
        exact ⟨_, _, ht, update_self .., List.mem_filter.mpr ⟨hq, by simpa using hne⟩⟩
      · exact ⟨t, ids', ht, (update_of_ne htable ..).trans hids', hq⟩
  · show ∃ ids', (m.delKey info.portIdToPipesTable p).tables t = some ids'
    rw [hdel]
    by_cases htable : t = info.portIdToPipesTable
    · exact ⟨_, by rw [htable, update_self]⟩
    · obtain ⟨ids', hids'⟩ := h.tableOf ht
      exact ⟨ids', (update_of_ne htable ..).trans hids'⟩
  · by_cases hq : q = p <;> simp [spec, hq]
  · simp [spec, filter_eq_some_iff]

theorem refines_flush {ids : List UInt64} (hport : m.portIdToPipesId.lookup portId = some table)
    (hids : m.tables table = some ids) :
    Refines { (ids.foldl flushPipe m).freeTable table with
        portIdToPipesId := (ids.foldl flushPipe m).portIdToPipesId.erase portId }
      (spec R (.flush portId)) := by
  obtain ⟨hports, htables, hinfo, hentry⟩ := flushPipes_spec m ids
  have hmem : ∀ {p}, p ∈ ids ↔ ∃ pipe, R.pipes p = some (pipe, portId) := h.mem_table hport hids
  have hleft : ∀ {portId' t}, ((ids.foldl flushPipe m).portIdToPipesId.erase portId).lookup portId' =
      some t ↔ portId' ≠ portId ∧ m.portIdToPipesId.lookup portId' = some t := by
    intro portId' t
    rw [hports, lookup_erase_eq]
    by_cases hp : portId' = portId <;> simp [hp]
  have hfree : ∀ {portId' t}, portId' ≠ portId → m.portIdToPipesId.lookup portId' = some t →
      update (ids.foldl flushPipe m).tables table none t = m.tables t := by
    intro portId' t hne ht
    rw [htables, update_of_ne]
    rintro rfl
    exact hne (h.portInj ht hport)
  -- a pipe that stays is one of another port
  have hother : ∀ {q pipe portId'}, R.pipes q = some (pipe, portId') → (portId' ≠ portId ↔ q ∉ ids) := by
    intro q pipe portId' hR
    rw [hmem, hR]
    simp
  refine refines_remove h (· ∈ ids) (fun {q info'} => ?_) (fun {e q} => ?_) (fun {portId' q} => ?_)
    (fun hR hq ht => hleft.mpr ⟨(hother hR).mpr hq, ht⟩) (fun {portId' t} ht => ?_) (fun {q v} => ?_)
    (fun {e x q} => ?_)
  · show (ids.foldl flushPipe m).pipeIdToPipeInfo.lookup q = some info' ↔ _
    rw [hinfo]
    by_cases hq : q ∈ ids <;> simp [hq]
  · show (ids.foldl flushPipe m).entryIdToPipeId.lookup e = some q ↔ _
    rw [hentry]
    refine and_congr_right fun he => ?_
    obtain ⟨x, hR⟩ := h.entryPipe.mp he
    refine ⟨fun hno hq => hno q hq x (h.holds.mpr hR), fun hq q' hq' y hy => ?_⟩
    cases hR.symm.trans (h.holds.mp hy)
    exact hq hq'
  · show (∃ t ids', ((ids.foldl flushPipe m).portIdToPipesId.erase portId).lookup portId' = some t ∧
      update (ids.foldl flushPipe m).tables table none t = some ids' ∧ q ∈ ids') ↔ _
    simp only [hleft]
    constructor
    · rintro ⟨t, ids', ⟨hne, ht⟩, hids', hq⟩
      have hin : m.InPort portId' q := ⟨t, ids', ht, hfree hne ht ▸ hids', hq⟩
      obtain ⟨pipe, hR⟩ := h.ports.mp hin
      exact ⟨hin, (hother hR).mp hne⟩
    · rintro ⟨hin, hq⟩
      obtain ⟨pipe, hR⟩ := h.ports.mp hin
      have hne := (hother hR).mpr hq
      obtain ⟨t, ids', ht, hids', hq⟩ := hin
      exact ⟨t, ids', ⟨hne, ht⟩, (hfree hne ht).trans hids', hq⟩
  · obtain ⟨hne, ht⟩ := hleft.mp ht
    obtain ⟨ids', hids'⟩ := h.tableOf ht
    exact ⟨ht, ids', (hfree hne ht).trans hids'⟩
  · simp only [spec, filter_eq_some_iff]
    refine and_congr_right fun hR => ?_
    rw [← hother hR]
    simp
  · simp only [spec, filter_eq_some_iff]
    refine and_congr_right fun hR => ?_
    obtain ⟨info, hq, -⟩ := h.holds.mpr hR
    obtain ⟨pipe, portId', hRq, -⟩ := h.infoPort hq
    rw [hRq, ← hother hRq]
    simp

end

/-! ## One call -/

def Settles (m : Manager P E) (R : Registry P E) (c : Call P E) (o : DocaError × Manager P E) : Prop :=
  (o.1 ≠ .success ∧ Same m o.2) ∨ (o.1 = .success ∧ Refines o.2 (spec R c))

theorem registerPipe_settles {m0 : Manager P E} {c : Call P E} {pipe : P} {isNew : Bool}
    {env : CreateEnv} (hundo : Same m (undoCreate m0 p portId table isNew))
    (href : Refines (m0.setInfo p ⟨pipe, ∅, table⟩) (spec R c)) :
    Settles m R c (registerPipe m0 pipe p portId table isNew env) := by
  unfold registerPipe
  split
  · split
    · exact .inr ⟨rfl, href⟩
    · exact .inl ⟨nofun, hundo⟩
  · exact .inl ⟨nofun, hundo⟩

theorem Settles.refines {c : Call P E} {o : DocaError × Manager P E} (ho : Settles m R c o)
    (h : Refines m R) : Refines o.2 (if o.1 = .success then spec R c else R) := by
  obtain ⟨herr, hsame⟩ | ⟨hok, href⟩ := ho
  · rw [if_neg herr]
    exact hsame.refines h
  · rw [if_pos hok]
    exact href

theorem same_rollBack {info : PipeInfo P E} {e : UInt64} {entry : E}
    (hinfo : m.pipeIdToPipeInfo.lookup p = some info) (hnot : e ∉ info.entriesTable) :
    let added := { info with entriesTable := info.entriesTable.insert e entry }
    Same m ((m.setInfo p added).setInfo p { added with entriesTable := added.entriesTable.erase e }) := by
  refine ⟨fun q => ?_, fun _ => rfl, fun _ => rfl, rfl⟩
  show ((m.pipeIdToPipeInfo.insert p _).insert p _).lookup q = _
  rw [AList.insert_insert, erase_insert hnot, lookup_insert_eq]
  split
  · rename_i hq
    rw [hq, hinfo]
  · rfl

section

variable (h : Refines m R)

include h

theorem settles_create {pipe : P} {env : CreateEnv}
    (hnew : ∀ table, env.newTable = some table → m.tables table = none) :
    Settles m R (.create pipe p portId env) (pipeCreate m pipe p portId env) := by
  unfold pipeCreate
  split
  · exact .inl ⟨nofun, .refl m⟩
  rename_i hp
  cases hport : m.portIdToPipesId.lookup portId with
  | none =>
    cases htable : env.newTable with
    | none => exact .inl ⟨nofun, .refl m⟩
    | some table =>
      have hfresh := hnew table htable
      dsimp only
      cases env.addPipeId with
      | false => exact .inl ⟨nofun, fun _ => rfl, fun _ => rfl, fun _ => rfl, freeTable_new hfresh⟩
      | true =>
        cases env.addPort with
        | false =>
          refine .inl ⟨nofun, fun _ => rfl, fun _ => rfl, fun _ => rfl, ?_⟩
          show update (update (update (update m.tables table _) table _) table _) table none = m.tables
          rw [update_idem, update_idem]
          exact freeTable_new hfresh
        | true =>
          exact registerPipe_settles (same_undoCreate_new hport hfresh) (refines_newPort h hp hport hfresh)
  | some table =>
    cases env.addPipeId with
    | false => exact .inl ⟨nofun, .refl m⟩
    | true =>
      exact registerPipe_settles (same_undoCreate h hport hp) (refines_addKey h hp hport)

theorem settles_addEntry {entry : E} {e : UInt64} {env : AddEnv}
    (hadds : ¬ AddsTwice m (.addEntry entry e p env)) :
    Settles m R (.addEntry entry e p env) (pipeAddEntry m entry e p env) := by
  unfold pipeAddEntry
  cases hinfo : m.pipeIdToPipeInfo.lookup p with
  | none => exact .inl ⟨nofun, .refl m⟩
  | some info =>
    dsimp only
    split
    · exact .inl ⟨nofun, .refl m⟩
    rename_i haddr
    cases hadd : env.addEntry with
    | false => exact .inl ⟨nofun, .refl m⟩
    | true =>
      -- a pipe that has the entry is this one exactly if the call fails
      have hiff : ∀ x q, R.entries e = some (x, q) → ¬ (q ≠ p ↔ env.addPipeId = true) :=
        fun x q hR hq => hadds ⟨q, info, h.entryPipe.mpr ⟨x, hR⟩, hinfo, haddr, hadd, hq⟩
      cases hmap : env.addPipeId with
      | true =>
        refine .inr ⟨rfl, refines_setEntry (v := some entry) h hinfo (fun x q hR => ?_)
          (lookup_insert_eq _ e p) (lookup_insert_eq _ e entry)⟩
        by_contra hne
        exact hiff x q hR (iff_of_true hne hmap)
      | false =>
        have hnot : e ∉ info.entriesTable := by
          intro hmem
          obtain ⟨x, hx⟩ := isSome_iff_exists.mp (AList.lookup_isSome.mpr hmem)
          exact hiff x p (h.holds.mp ⟨info, hinfo, hx⟩) (by simp [hmap])
        exact .inl ⟨nofun, same_rollBack hinfo hnot⟩

theorem settles_rmEntry (e : UInt64) : Settles m R (.rmEntry e) (pipeRmEntry m e) := by
  unfold pipeRmEntry
  cases hp : m.entryIdToPipeId.lookup e with
  | none => exact .inl ⟨nofun, .refl m⟩
  | some p =>
    obtain ⟨x, hR⟩ := h.entryPipe.mp hp
    obtain ⟨info, hinfo, hx⟩ := h.holds.mpr hR
    have hmem : e ∈ info.entriesTable := AList.lookup_isSome.mp (by rw [hx]; rfl)
    simp only [hinfo, hmem, if_true]
    refine .inr ⟨rfl, refines_setEntry (v := none) h hinfo (fun y q hR' => ?_) (lookup_erase_eq _ e)
      (lookup_erase_eq _ e)⟩
    rw [hR] at hR'
    cases hR'
    rfl

theorem settles_destroy (p : UInt64) : Settles m R (.destroy p) (pipeDestroy m p) := by
  unfold pipeDestroy
  cases hinfo : m.pipeIdToPipeInfo.lookup p with
  | none => exact .inl ⟨nofun, .refl m⟩
  | some info =>
    obtain ⟨pipe, portId, hR, hport⟩ := h.infoPort hinfo
    obtain ⟨ids, hids⟩ := h.tableOf hport
    have hmem := (h.mem_table hport hids).mpr ⟨pipe, hR⟩
    simp only [hids, getD_some, hmem, if_true]
    exact .inr ⟨rfl, refines_destroy h hinfo⟩

theorem settles_flush (portId : UInt16) : Settles m R (.flush portId) (pipesFlush m portId) := by
  unfold pipesFlush
  cases hport : m.portIdToPipesId.lookup portId with
  | none => exact .inl ⟨nofun, .refl m⟩
  | some table =>
    obtain ⟨ids, hids⟩ := h.tableOf hport
    simp only [hids, getD_some]
    exact .inr ⟨rfl, refines_flush h hport hids⟩

theorem settles {c : Call P E} (hd : Distinct m c) (hadds : ¬ AddsTwice m c) : Settles m R c (exec m c) := by
  cases c with
  | create pipe p portId env => exact settles_create h hd
  | addEntry entry e p env => exact settles_addEntry h hadds
  | rmEntry e => exact settles_rmEntry h e
  | destroy p => exact settles_destroy h p
  | flush portId => exact settles_flush h portId

theorem same_of_error {c : Call P E} (hd : Distinct m c) (hadds : ¬ AddsTwice m c)
    (herr : (exec m c).1 ≠ .success) : Same m (exec m c).2 := by
  rcases settles h hd hadds with ⟨-, hsame⟩ | ⟨hok, -⟩
  · exact hsame
  · exact absurd hok herr

theorem refines_exec {c : Call P E} (hd : Distinct m c) (hadds : ¬ AddsTwice m c) :
    Refines (exec m c).2 (if (exec m c).1 = .success then spec R c else R) :=
  (settles h hd hadds).refines h

end

/-! ## Runs -/

structure Sys (P E : Type) where
  manager : Manager P E
  registry : Registry P E

def Sys.init : Sys P E := ⟨.new, .empty⟩

variable (s : Sys P E) (c : Call P E)

def next : Sys P E :=
  ⟨(exec s.manager c).2, if (exec s.manager c).1 = .success then spec s.registry c else s.registry⟩

def step : Option (Sys P E) := some (next s c)

def Allowed : Prop := Distinct s.manager c ∧ ¬ AddsTwice s.manager c

theorem Refines.init : Refines (Sys.init (P := P) (E := E)).manager Sys.init.registry := by
  refine ⟨?_, ?_, ?_, ?_, ?_, ?_, ?_⟩
  · simp [Sys.init, Manager.new, Registry.empty]
  · simp [Sys.init, Manager.new, Registry.empty, Manager.InPort]
  · simp [Sys.init, Manager.new, Registry.empty]
  · simp [Sys.init, Manager.new, Registry.empty, Manager.Holds]
  all_goals simp [Sys.init, Manager.new]

theorem refines_of_reach {s : Sys P E} (h : Reach step Allowed Sys.init s) :
    Refines s.manager s.registry := by
  refine h.invariant (I := fun s => Refines s.manager s.registry) .init fun s c s' hs hc hstep => ?_
  cases hstep
  exact refines_exec hs hc.1 hc.2

/-- The tables agree with each other, and lookups give exactly what is registered. -/
structure Consistent (m : Manager P E) (R : Registry P E) : Prop where
  /-- A registered pipe is in the table of exactly one port. -/
  onePort : ∀ p, p ∈ m.pipeIdToPipeInfo → ∃! portId, m.InPort portId p
  /-- An entry has a pipe exactly if it is in the table of the pipe. -/
  entryPipe : ∀ e p, m.entryIdToPipeId.lookup e = some p ↔
    ∃ info, m.pipeIdToPipeInfo.lookup p = some info ∧ e ∈ info.entriesTable
  getPipe : ∀ p pipe, getPipe m p = .ok pipe ↔ ∃ portId, R.pipes p = some (pipe, portId)
  getEntry : ∀ e entry, getEntry m e = .ok entry ↔ ∃ p, R.entries e = some (entry, p)

structure Unchanged (m m' : Manager P E) : Prop where
  getPipe : ∀ p, getPipe m' p = getPipe m p
  getEntry : ∀ e, getEntry m' e = getEntry m e
  inPort : ∀ portId p, m'.InPort portId p ↔ m.InPort portId p
  entryPipe : ∀ e, m'.entryIdToPipeId.lookup e = m.entryIdToPipeId.lookup e

theorem Same.unchanged (h : Same m m') : Unchanged m m' where
  getPipe p := by
    unfold PipesManager.getPipe
    rw [h.pipes]
  getEntry e := by
    unfold PipesManager.getEntry
    rw [h.entries]
    cases m.entryIdToPipeId.lookup e with
    | none => rfl
    | some p =>
      dsimp only
      rw [h.pipes]
  inPort _ _ := h.inPort
  entryPipe := h.entries

theorem Refines.consistent (h : Refines m R) : Consistent m R where
  onePort p hp := by
    obtain ⟨info, hinfo⟩ := isSome_iff_exists.mp (AList.lookup_isSome.mpr hp)
    obtain ⟨pipe, portId, hR, -⟩ := h.infoPort hinfo
    refine ⟨portId, h.ports.mpr ⟨pipe, hR⟩, fun portId' hin => ?_⟩
    obtain ⟨pipe', hR'⟩ := h.ports.mp hin
    rw [hR] at hR'
    cases hR'
    rfl
  entryPipe e p := by
    rw [h.entryPipe]
    constructor
    · rintro ⟨x, hR⟩
      obtain ⟨info, hinfo, hx⟩ := h.holds.mpr hR
      exact ⟨info, hinfo, AList.lookup_isSome.mp (by rw [hx]; rfl)⟩
    · rintro ⟨info, hinfo, hmem⟩
      obtain ⟨x, hx⟩ := isSome_iff_exists.mp (AList.lookup_isSome.mpr hmem)
      exact ⟨x, h.holds.mp ⟨info, hinfo, hx⟩⟩
  getPipe p pipe := by
    rw [← h.pipes]
    unfold PipesManager.getPipe
    cases hinfo : m.pipeIdToPipeInfo.lookup p <;> simp
  getEntry e entry := by
    unfold PipesManager.getEntry
    cases hp : m.entryIdToPipeId.lookup e with
    | none =>
      have hno : ∀ p, R.entries e ≠ some (entry, p) := fun p hR => by
        have hsome := h.entryPipe.mpr ⟨entry, hR⟩
        rw [hp] at hsome
        cases hsome
      simp [hno]
    | some p =>
      obtain ⟨x, hR⟩ := h.entryPipe.mp hp
      obtain ⟨info, hinfo, hx⟩ := h.holds.mpr hR
      simp [hinfo, hx, hR]

theorem not_consistent_of_addsTwice (h : Refines m R) {c : Call P E} (hadds : AddsTwice m c)
    {R' : Registry P E} : ¬ Consistent (exec m c).2 R' := by
  cases c with
  | addEntry entry e p env =>
    obtain ⟨q, info, hq, hinfo, haddr, hadd, hiff⟩ := hadds
    obtain ⟨x, hR⟩ := h.entryPipe.mp hq
    obtain ⟨infoq, hinfoq, hx⟩ := h.holds.mpr hR
    intro hcons
    simp only [exec, pipeAddEntry, hinfo, if_neg haddr, if_pos hadd] at hcons
    by_cases hmap : env.addPipeId = true
    · -- the entry stays in the table of the first pipe and leads to the second
      rw [if_pos hmap] at hcons
      have hne : q ≠ p := hiff.mpr hmap
      have hback := (hcons.entryPipe e q).mpr ⟨infoq, ?_, ?_⟩
      · change (m.entryIdToPipeId.insert e p).lookup e = some q at hback
        rw [AList.lookup_insert] at hback
        cases hback
        exact hne rfl
      · show (m.pipeIdToPipeInfo.insert p _).lookup q = _
        rw [AList.lookup_insert_ne hne, hinfoq]
      · exact AList.lookup_isSome.mp (by rw [hx]; rfl)
    · -- the roll-back takes the entry out of the table of its pipe
      rw [if_neg hmap] at hcons
      have heq : q = p := by
        by_contra hne
        exact hmap (hiff.mp hne)
      obtain ⟨info', hinfo', hmem⟩ := (hcons.entryPipe e q).mp hq
      change ((m.pipeIdToPipeInfo.insert p _).insert p _).lookup q = some info' at hinfo'
      rw [heq, AList.lookup_insert] at hinfo'
      cases hinfo'
      exact absurd (AList.lookup_isSome.mpr hmem) (by rw [AList.lookup_erase]; simp)
  | create => exact hadds.elim
  | rmEntry => exact hadds.elim
  | destroy => exact hadds.elim
  | flush => exact hadds.elim

/-- **The pipes manager refines the registry** exactly as long as no call registers an entry a second
    time. -/
theorem registry_iff {s : Sys P E} (h : Reach step Allowed Sys.init s) {c : Call P E}
    (hd : Distinct s.manager c) :
    (Consistent (next s c).manager (next s c).registry ∧
      ((exec s.manager c).1 ≠ .success → Unchanged s.manager (next s c).manager)) ↔
        ¬ AddsTwice s.manager c := by
  have href := refines_of_reach h
  constructor
  · rintro ⟨hcons, -⟩ hadds
    exact not_consistent_of_addsTwice href hadds hcons
  · intro hadds
    exact ⟨(refines_exec href hd hadds).consistent,
      fun herr => (same_of_error href hd hadds herr).unchanged⟩

theorem Refines.unchanged (h : Refines m R) (h' : Refines m' R) : Unchanged m m' := by
  have hentry e : m'.entryIdToPipeId.lookup e = m.entryIdToPipeId.lookup e :=
    Option.ext fun _ => h'.entryPipe.trans h.entryPipe.symm
  refine ⟨fun p => ?_, fun e => ?_, fun _ _ => h'.ports.trans h.ports.symm, hentry⟩
  · have hiff pipe := (h'.consistent.getPipe p pipe).trans (h.consistent.getPipe p pipe).symm
    unfold getPipe at hiff ⊢
    cases hm : m.pipeIdToPipeInfo.lookup p <;> cases hm' : m'.pipeIdToPipeInfo.lookup p <;> simp_all
  · unfold getEntry
    rw [hentry e]
    cases hp : m.entryIdToPipeId.lookup e with
    | none => rfl
    | some q =>
      obtain ⟨x, hR⟩ := h.entryPipe.mp hp
      obtain ⟨info, hinfo, hx⟩ := h.holds.mpr hR
      obtain ⟨info', hinfo', hx'⟩ := h'.holds.mpr hR
      simp only [hinfo, hx, hinfo', hx']

/-- **Lookups depend on what is registered only**, not on the calls that have led there. -/
theorem lookups_of_registry {s s' : Sys P E} (h : Reach step Allowed Sys.init s)
    (h' : Reach step Allowed Sys.init s') (heq : s.registry = s'.registry) :
    Unchanged s.manager s'.manager :=
  (refines_of_reach h).unchanged (heq ▸ refines_of_reach h')

/-! ### An entry in two pipes -/

def createPipe (pipe : Nat) (pipeId : UInt64) (table : Option Nat) : Call Nat Nat :=
  .create pipe pipeId 0 ⟨table, true, true, true, true⟩

def addSample (pipeId : UInt64) : Call Nat Nat := .addEntry 0 20 pipeId ⟨0, true, true⟩

def twoPipes : Sys Nat Nat := next (next Sys.init (createPipe 0 10 (some 0))) (createPipe 1 11 none)

theorem twoPipes_reach : Reach step Allowed Sys.init twoPipes := by
  have hfirst : Distinct (P := Nat) (E := Nat) .new (createPipe 0 10 (some 0)) := by
    rintro _ ⟨⟩
    rfl
  have hsecond : Distinct (next Sys.init (createPipe 0 10 (some 0))).manager (createPipe 1 11 none) := by
    rintro _ ⟨⟩
  exact (Reach.init.tail ⟨hfirst, id⟩ rfl).tail ⟨hsecond, id⟩ rfl

theorem twoPipes_distinct (p : UInt64) : Distinct twoPipes.manager (addSample p) := by
  intro q x hx
  cases (refines_of_reach twoPipes_reach).holds.mp hx

theorem twoPipes_new (p : UInt64) : ¬ AddsTwice twoPipes.manager (addSample p) := by
  rintro ⟨q, -, hq, -⟩
  cases hq

theorem oneEntry_reach : Reach step Allowed Sys.init (next twoPipes (addSample 10)) :=
  twoPipes_reach.tail ⟨twoPipes_distinct 10, twoPipes_new 10⟩ rfl

/-- An entry that is added to a second pipe is in the tables of both. -/
theorem entry_in_two_pipes :
    ∃ s : Sys Nat Nat, Reach step Allowed Sys.init s ∧ Distinct s.manager (addSample 11) ∧
      (exec s.manager (addSample 11)).1 = .success ∧
      (next s (addSample 11)).manager.entryIdToPipeId.lookup 20 = some 11 ∧
      ∃ info, (next s (addSample 11)).manager.pipeIdToPipeInfo.lookup 10 = some info ∧
        20 ∈ info.entriesTable := by
  refine ⟨_, oneEntry_reach, ?_, rfl, rfl, _, rfl, by decide⟩
  intro q x hx
  cases (refines_of_reach oneEntry_reach).holds.mp hx
  rfl

theorem registry_iff_first :
    Consistent (next twoPipes (addSample 10)).manager (next twoPipes (addSample 10)).registry :=
  ((registry_iff twoPipes_reach (twoPipes_distinct 10)).mpr (twoPipes_new 10)).1

theorem lookups_of_registry_removed :
    Unchanged twoPipes.manager (next (next twoPipes (addSample 10)) (.rmEntry 20)).manager := by
  have hreach : Reach step Allowed Sys.init (next (next twoPipes (addSample 10)) (.rmEntry 20)) :=
    oneEntry_reach.tail (e := .rmEntry 20) ⟨trivial, id⟩ rfl
  refine lookups_of_registry twoPipes_reach hreach ?_
  show _ = Registry.mk _ (Function.update (Function.update _ _ _) _ none)
  rw [Function.update_idem]
  exact congrArg _ (Function.update_eq_self 20 _).symm

/-! ## Ids in use -/

/-- The addition fails before its first insertion, or at the second one for an id that is not in the
pipe. -/
def TurnedAway (m : Manager P E) (e p : UInt64) (env : AddEnv) : Prop :=
  ∀ info, m.pipeIdToPipeInfo.lookup p = some info → env.entryIdAddr ∈ info.entriesTable ∨
    env.addEntry = false ∨ env.addPipeId = false ∧ e ∉ info.entriesTable

def Turns : Call P E → Prop
  | .create _ _ _ env => ∀ table, env.newTable = some table → s.manager.tables table = none
  | .addEntry _ e p env => (∃ q x, s.manager.Holds q e x) → TurnedAway s.manager e p env
  | _ => True

def Designates (m : Manager P E) : Prop :=
  ∀ p q e x y, m.Holds p e x → m.Holds q e y → p = q ∧ x = y

theorem refused_iff (m : Manager P E) (entry : E) (e p : UInt64) (env : AddEnv) :
    (pipeAddEntry m entry e p env).1 ≠ .success ∧ Same m (pipeAddEntry m entry e p env).2 ↔
      TurnedAway m e p env := by
  unfold pipeAddEntry TurnedAway
  cases hinfo : m.pipeIdToPipeInfo.lookup p with
  | none => exact iff_of_true ⟨nofun, .refl m⟩ nofun
  | some info =>
    simp only [some.injEq, forall_eq']
    split
    · rename_i haddr
      exact iff_of_true ⟨nofun, .refl m⟩ (.inl haddr)
    rename_i haddr
    cases env.addEntry with
    | false => exact iff_of_true ⟨nofun, .refl m⟩ (.inr (.inl rfl))
    | true =>
      cases env.addPipeId with
      | true => exact iff_of_false (fun h => h.1 rfl) (by simp [haddr])
      | false =>
        by_cases hin : e ∈ info.entriesTable
        · refine iff_of_false (fun h => ?_) (by simp [haddr, hin])
          have hp : (_ : Manager P E).pipeIdToPipeInfo.lookup p = _ := h.2.pipes p
          rw [if_pos rfl, if_neg Bool.false_ne_true, Manager.setInfo, AList.lookup_insert, hinfo] at hp
          rw [← congrArg PipeInfo.entriesTable (some.inj hp)] at hin
          exact absurd (AList.lookup_isSome.mpr hin) (by rw [AList.lookup_erase]; nofun)
        · exact iff_of_true ⟨nofun, same_rollBack hinfo hin⟩ (.inr (.inr ⟨rfl, hin⟩))

theorem refines_of_turns {s : Sys P E} (h : Reach step Turns Sys.init s) :
    Refines s.manager s.registry := by
  refine h.invariant (I := fun s => Refines s.manager s.registry) .init fun s c s' hs hc hstep => ?_
  cases hstep
  refine Settles.refines ?_ hs
  cases c with
  | create => exact settles_create hs hc
  | addEntry entry e p env =>
    by_cases hused : ∃ q x, s.manager.Holds q e x
    · exact .inl ((refused_iff s.manager entry e p env).mpr (hc hused))
    · refine settles_addEntry hs ?_
      rintro ⟨q, -, hq, -⟩
      obtain ⟨x, hx⟩ := hs.entryPipe.mp hq
      exact hused ⟨q, x, hs.holds.mpr hx⟩
  | rmEntry e => exact settles_rmEntry hs e
  | destroy p => exact settles_destroy hs p
  | flush portId => exact settles_flush hs portId

/-- **When an id in use is refused.** The check for it looks for the address of the id, so that only a
    failure or a coincidence turns the entry away. -/
theorem duplicate_refused_iff {s : Sys P E} (h : Reach step Turns Sys.init s) (entry : E)
    (e p : UInt64) (env : AddEnv) :
    let o := pipeAddEntry s.manager entry e p env
    (o.1 ≠ .success ∧ Same s.manager o.2 ∧ Designates o.2) ↔ TurnedAway s.manager e p env := by
  dsimp only
  rw [← and_assoc, refused_iff]
  refine and_iff_left_of_imp fun hturned p q e x y hp hq => ?_
  have href := ((refused_iff _ entry _ _ _).mpr hturned).2.refines (refines_of_turns h)
  cases (href.holds.mp hp).symm.trans (href.holds.mp hq)
  exact ⟨rfl, rfl⟩

def oneEntry : Sys Nat Nat := next (next Sys.init (createPipe 0 10 (some 0))) (addSample 10)

theorem oneEntry_turns : Reach step Turns Sys.init oneEntry := by
  have hfirst : Reach step Turns Sys.init (next Sys.init (createPipe 0 10 (some 0))) := by
    refine Reach.init.tail (e := createPipe 0 10 (some 0)) ?_ rfl
    rintro _ ⟨⟩
    rfl
  refine hfirst.tail (e := addSample 10) ?_ rfl
  rintro ⟨q, x, hx⟩
  cases (refines_of_turns hfirst).holds.mp hx

/-- Another entry with the id of the first one takes its place. -/
theorem duplicate_overwrites : Reach step Turns Sys.init oneEntry ∧ oneEntry.manager.Holds 10 20 0 ∧
    (pipeAddEntry oneEntry.manager 1 20 10 ⟨0, true, true⟩).1 = .success ∧
    (pipeAddEntry oneEntry.manager 1 20 10 ⟨0, true, true⟩).2.Holds 10 20 1 :=
  ⟨oneEntry_turns, ⟨_, rfl, rfl⟩, rfl, ⟨_, rfl, rfl⟩⟩

theorem duplicate_refused_address :
    (pipeAddEntry oneEntry.manager 1 20 10 ⟨20, true, true⟩).1 ≠ .success :=
  ((duplicate_refused_iff oneEntry_turns 1 20 10 ⟨20, true, true⟩).mpr fun info hinfo => by
    cases hinfo
    exact .inl (by decide)).1

end Doca.PipesManager
