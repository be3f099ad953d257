import AnsiDeck.InternalApi.Refreshes

/-!
# Storing what the sources did

What `_store_results` does to one row (`Settles`), and from that to all of them: the rows it
settles, the outputs it stores, and that no source becomes another one.
-/

namespace AnsiDeck

namespace RefreshReport

open Lib (Table)
open InventorySources (Db SourcesDb Outputs)
open InventorySources.SourcesDb (sourceOutput)
open InternalApi

variable {out : Outputs} {id : RefreshId} {now : Time}

/-- What a source is, apart from what its last run did. -/
def identity (source : InventorySource) : SourceInput × InventoryId :=
  (source.toSourceInput, source.inventoryId)

/-- What settling the row of a source does, besides to its outputs. -/
structure Settles (row : InventoryRefreshSource) (db : SourcesDb)
    (after : InventoryRefreshSource × SourcesDb) : Prop where
  ran : after.1.ran = row.ran
  sourceId : after.1.sourceId = row.sourceId
  settled : row.ran = true → (row.sourceId.isSome = true ∨ row.status.isSome = true) →
    after.1.status.isSome = true
  tables : after.2.toDb = db.toDb
  rows : after.2.refreshSources = db.refreshSources
  sources : ∀ k, (after.2.sources.get? k).map identity = (db.sources.get? k).map identity

theorem Settles.refl {row : InventoryRefreshSource} {db : SourcesDb}
    (h : row.ran = true → row.sourceId.isSome = true → row.status.isSome = true) :
    Settles row db (row, db) where
  ran := rfl
  sourceId := rfl
  settled hran hor := hor.elim (h hran) fun hstatus => hstatus
  tables := rfl
  rows := rfl
  sources _ := rfl

theorem get?_of_unchanged {db : SourcesDb} {row : InventoryRefreshSource} {source : SourceId}
    {kept : InventorySource} (h : db.unchanged out row = some (source, kept)) :
    row.sourceId = some source ∧ db.sources.get? source = some kept ∧
      row.inputSha256 = some (out.inputSha256 kept.toSourceInput) := by
  obtain ⟨k, hk, hmap⟩ := Option.bind_eq_some_iff.mp h
  obtain ⟨source', hfilter, heq⟩ := Option.map_eq_some_iff.mp hmap
  obtain ⟨rfl, rfl⟩ := Prod.mk.inj heq
  rw [Option.filter_eq_some_iff] at hfilter
  exact ⟨hk, hfilter.1, by simpa using hfilter.2⟩

/-- Writing to a source's row what its last run did. -/
theorem identity_put {sources : Table SourceId InventorySource} {k : SourceId}
    {old new : InventorySource} (hold : sources.get? k = some old)
    (hnew : identity new = identity old) (j : SourceId) :
    ((sources.put k new).get? j).map identity = (sources.get? j).map identity := by
  by_cases hj : j = k
  · rw [hj, Table.get?_put_self, hold, Option.map_some, Option.map_some, hnew]
  · rw [Table.get?_put_of_ne _ _ hj]

theorem settles_failure {row : InventoryRefreshSource} {db : SourcesDb} {error : String} :
    Settles row db (db.recordSourceFailure out now row error) := by
  unfold SourcesDb.recordSourceFailure
  dsimp only
  split
  · exact ⟨rfl, rfl, fun _ _ => rfl, rfl, rfl, fun _ => rfl⟩
  · next source kept hkept =>
    obtain ⟨-, hget, -⟩ := get?_of_unchanged hkept
    exact ⟨rfl, rfl, fun _ _ => rfl, rfl, rfl, identity_put hget rfl⟩

theorem settles_output {row : InventoryRefreshSource} {db : SourcesDb} {raw : Bytes}
    {scrubbed : Bool} : Settles row db (db.storeSourceOutput out now id row raw scrubbed) := by
  unfold SourcesDb.storeSourceOutput
  split
  · exact settles_failure
  · split
    · exact ⟨rfl, rfl, fun _ _ => rfl, rfl, rfl, fun _ => rfl⟩
    · next source kept hkept =>
      obtain ⟨-, hget, -⟩ := get?_of_unchanged hkept
      exact ⟨rfl, rfl, fun _ _ => rfl, rfl, rfl, identity_put hget rfl⟩

theorem settles_result {staged : Staged} {results : List RefreshSourceResultIn}
    {row : InventoryRefreshSource} {db : SourcesDb} {after : InventoryRefreshSource × SourcesDb}
    (h : storeResult out now staged id results row db = .ok after) : Settles row db after := by
  unfold storeResult at h
  split at h
  · next hnone =>
    obtain rfl := Except.ok.inj h
    exact .refl fun _ hsome => absurd hsome (by simp [hnone])
  · split at h
    · next hdone =>
      obtain rfl := Except.ok.inj h
      refine .refl fun hran _ => ?_
      simpa [hran] using hdone
    · split at h
      · obtain rfl := Except.ok.inj h
        exact settles_failure
      · split at h
        · obtain rfl := Except.ok.inj h
          exact settles_failure
        · split at h
          · exact absurd h (by simp)
          · obtain rfl := Except.ok.inj h
            exact settles_output

theorem storeRows_cons {staged : Staged} {results : List RefreshSourceResultIn}
    {row : InventoryRefreshSource} {rows : List InventoryRefreshSource} {db : SourcesDb}
    {after : List InventoryRefreshSource × SourcesDb}
    (h : storeRows out now staged id results (row :: rows) db = .ok after) :
    ∃ row' db' rows', storeResult out now staged id results row db = .ok (row', db') ∧
      storeRows out now staged id results rows db' = .ok (rows', after.2) ∧
      after.1 = row' :: rows' := by
  unfold storeRows at h
  cases hrow : storeResult out now staged id results row db with
  | error detail =>
    rw [hrow] at h
    exact absurd h (by simp [bind, Except.bind])
  | ok first =>
    obtain ⟨row', db'⟩ := first
    rw [hrow] at h
    cases hrows : storeRows out now staged id results rows db' with
    | error detail =>
      simp only [bind, Except.bind, hrows] at h
      exact absurd h (by simp)
    | ok rest =>
      simp only [bind, Except.bind, hrows, pure, Except.pure] at h
      obtain rfl := Except.ok.inj h
      exact ⟨row', db', rest.1, rfl, hrows, rfl⟩

/-- What stands in the left list for an element of the right one. -/
theorem exists_of_mem_right {α β : Type} {R : α → β → Prop} {l : List α} {m : List β}
    (h : List.Forall₂ R l m) {b : β} (hb : b ∈ m) : ∃ a ∈ l, R a b := by
  induction h with
  | nil => exact absurd hb (by simp)
  | cons hR _ ih =>
    rcases List.mem_cons.mp hb with rfl | hmem
    · exact ⟨_, List.mem_cons_self, hR⟩
    · obtain ⟨a, ha, hRa⟩ := ih hmem
      exact ⟨a, List.mem_cons_of_mem _ ha, hRa⟩

theorem exists_of_mem_left {α β : Type} {R : α → β → Prop} {l : List α} {m : List β}
    (h : List.Forall₂ R l m) {a : α} (ha : a ∈ l) : ∃ b ∈ m, R a b :=
  exists_of_mem_right h.flip ha

/-- Settling all the rows. -/
structure SettlesAll (rows : List InventoryRefreshSource) (db : SourcesDb)
    (after : List InventoryRefreshSource × SourcesDb) : Prop where
  each : List.Forall₂ (fun row row' => row'.ran = row.ran ∧ row'.sourceId = row.sourceId ∧
    (row.ran = true → (row.sourceId.isSome = true ∨ row.status.isSome = true) →
      row'.status.isSome = true)) rows after.1
  tables : after.2.toDb = db.toDb
  rows : after.2.refreshSources = db.refreshSources
  sources : ∀ k, (after.2.sources.get? k).map identity = (db.sources.get? k).map identity

theorem settlesAll_rows {staged : Staged} {results : List RefreshSourceResultIn}
    {rows : List InventoryRefreshSource} {db : SourcesDb}
    {after : List InventoryRefreshSource × SourcesDb}
    (h : storeRows out now staged id results rows db = .ok after) : SettlesAll rows db after := by
  induction rows generalizing db after with
  | nil =>
    obtain rfl := Except.ok.inj h
    exact ⟨.nil, rfl, rfl, fun _ => rfl⟩
  | cons row rows ih =>
    obtain ⟨row', db', rows', hrow, hrows, heq⟩ := storeRows_cons h
    have hfirst := settles_result hrow
    have hrest := ih hrows
    refine ⟨?_, hrest.tables.trans hfirst.tables, hrest.rows.trans hfirst.rows, ?_⟩
    · rw [heq]
      exact .cons ⟨hfirst.ran, hfirst.sourceId, hfirst.settled⟩ hrest.each
    · intro k
      rw [hrest.sources k, hfirst.sources k]

theorem storeResults_spec {db stored : SourcesDb} {staged : Staged}
    {results : List RefreshSourceResultIn}
    (h : storeResults out now db staged id results = .ok stored) :
    ∃ rows after, storeRows out now staged id results (db.refreshRows id) db = .ok (rows, after) ∧
      stored = after.putRows id rows := by
  unfold storeResults at h
  dsimp only at h
  split at h
  · exact absurd h (by simp)
  · cases hrows : storeRows out now staged id results (db.refreshRows id) db with
    | error detail =>
      rw [hrows] at h
      exact absurd h (by simp [bind, Except.bind])
    | ok after =>
      rw [hrows] at h
      obtain rfl := Except.ok.inj h
      exact ⟨after.1, after.2, rfl, rfl⟩

@[simp] theorem refreshRows_putRows (db : SourcesDb) (rows : List InventoryRefreshSource) :
    (db.putRows id rows).refreshRows id = rows := by
  simp [SourcesDb.refreshRows, SourcesDb.putRows]

/-! ## The outputs -/

theorem reported_of_mem {results : List RefreshSourceResultIn} {r : RefreshSourceResultIn}
    (hnodup : (results.map RefreshSourceResultIn.sourceId).Nodup) (hr : r ∈ results) :
    reported results r.sourceId = some r := by
  unfold reported
  cases hfind : results.reverse.find? (·.sourceId = r.sourceId) with
  | none =>
    have := List.find?_eq_none.mp hfind r (List.mem_reverse.mpr hr)
    exact absurd (by simp) this
  | some r' =>
    have hid : r'.sourceId = r.sourceId := by simpa using List.find?_some hfind
    have hmem : r' ∈ results := List.mem_reverse.mp (List.mem_of_find?_eq_some hfind)
    rw [List.inj_on_of_nodup_map hnodup hmem hr hid]

theorem mem_of_reported {results : List RefreshSourceResultIn} {r : RefreshSourceResultIn}
    {source : SourceId} (h : reported results source = some r) :
    r ∈ results ∧ r.sourceId = source :=
  ⟨List.mem_reverse.mp (List.mem_of_find?_eq_some h), by simpa using List.find?_some h⟩

/-- No row is refused when every reported success is staged. -/
theorem storeRows_ok {staged : Staged} {results : List RefreshSourceResultIn}
    (hstaged : ∀ r ∈ results, r.status = .success →
      (readPart out staged (.source r.sourceId) r.bytes r.sha256).isSome = true)
    (rows : List InventoryRefreshSource) (db : SourcesDb) :
    ∃ after, storeRows out now staged id results rows db = .ok after := by
  have hrow : ∀ row db, ∃ after, storeResult out now staged id results row db = .ok after := by
    intro row db
    unfold storeResult
    split
    · exact ⟨_, rfl⟩
    · split
      · exact ⟨_, rfl⟩
      · split
        · exact ⟨_, rfl⟩
        · next r hr =>
          split
          · exact ⟨_, rfl⟩
          · next hsuccess =>
            obtain ⟨hmem, hid⟩ := mem_of_reported hr
            have hread := hstaged r hmem (Decidable.not_not.mp hsuccess)
            rw [hid] at hread
            obtain ⟨raw, hraw⟩ := Option.isSome_iff_exists.mp hread
            rw [hraw]
            exact ⟨_, rfl⟩
  induction rows generalizing db with
  | nil => exact ⟨_, rfl⟩
  | cons row rows ih =>
    obtain ⟨first, hfirst⟩ := hrow row db
    obtain ⟨rest, hrest⟩ := ih first.2
    refine ⟨(first.1 :: rest.1, rest.2), ?_⟩
    unfold storeRows
    simp only [hfirst, bind, Except.bind, hrest]
    rfl

theorem outputs_failure {db : SourcesDb} {row : InventoryRefreshSource} {error : String} :
    (db.recordSourceFailure out now row error).2.outputs = db.outputs := by
  unfold SourcesDb.recordSourceFailure
  dsimp only
  split <;> rfl

/-- A row only touches the output of its own source. -/
theorem outputs_other {staged : Staged} {results : List RefreshSourceResultIn}
    {row : InventoryRefreshSource} {db : SourcesDb} {after : InventoryRefreshSource × SourcesDb}
    {c : SourceId} (h : storeResult out now staged id results row db = .ok after)
    (hne : row.sourceId ≠ some c) : after.2.outputs.get? c = db.outputs.get? c := by
  have hput : ∀ raw scrubbed,
      (db.storeSourceOutput out now id row raw scrubbed).2.outputs.get? c = db.outputs.get? c := by
    intro raw scrubbed
    unfold SourcesDb.storeSourceOutput
    split
    · rw [outputs_failure]
    · split
      · rfl
      · next source kept hkept =>
        obtain ⟨hid, -, -⟩ := get?_of_unchanged hkept
        exact Table.get?_put_of_ne _ _ fun hc => hne (by rw [hid, hc])
  unfold storeResult at h
  split at h
  · obtain rfl := Except.ok.inj h
    rfl
  · split at h
    · obtain rfl := Except.ok.inj h
      rfl
    · split at h
      · obtain rfl := Except.ok.inj h
        rw [outputs_failure]
      · split at h
        · obtain rfl := Except.ok.inj h
          rw [outputs_failure]
        · split at h
          · exact absurd h (by simp)
          · obtain rfl := Except.ok.inj h
            exact hput _ _

theorem outputs_others {staged : Staged} {results : List RefreshSourceResultIn}
    {rows : List InventoryRefreshSource} {db : SourcesDb}
    {after : List InventoryRefreshSource × SourcesDb} {c : SourceId}
    (h : storeRows out now staged id results rows db = .ok after)
    (hne : ∀ row ∈ rows, row.sourceId ≠ some c) : after.2.outputs.get? c = db.outputs.get? c := by
  induction rows generalizing db after with
  | nil =>
    obtain rfl := Except.ok.inj h
    rfl
  | cons row rows ih =>
    obtain ⟨row', db', rows', hrow, hrows, -⟩ := storeRows_cons h
    have hrest := ih hrows fun r hr => hne r (List.mem_cons_of_mem _ hr)
    have hfirst := outputs_other hrow (hne row List.mem_cons_self)
    exact hrest.trans hfirst

/-- Settling other rows doesn't change what a source is. -/
theorem unchanged_congr {db db' : SourcesDb} {row : InventoryRefreshSource}
    (h : ∀ k, (db'.sources.get? k).map identity = (db.sources.get? k).map identity) :
    (db'.unchanged out row).isSome = (db.unchanged out row).isSome := by
  unfold SourcesDb.unchanged
  cases row.sourceId with
  | none => rfl
  | some k =>
    have hk := h k
    simp only [Option.bind_some, Option.isSome_map]
    cases h' : db'.sources.get? k with
    | none =>
      rw [h', Option.map_none] at hk
      rw [Option.map_eq_none_iff.mp hk.symm]
    | some source' =>
      rw [h', Option.map_some] at hk
      obtain ⟨source, hsource, heq⟩ := Option.map_eq_some_iff.mp hk.symm
      have hinput : source.toSourceInput = source'.toSourceInput := congrArg Prod.fst heq
      rw [hsource, Option.filter_some, Option.filter_some, hinput]
      split <;> rfl

/-- What becomes of an uploaded output: it is the source's last good one now, if the source is still
what the job was built from; else the row is stale and the source's last output stays. -/
structure OutputSettled (out : Outputs) (id : RefreshId) (row : InventoryRefreshSource)
    (source : SourceId) (graph : SourceGraph) (db : SourcesDb)
    (after : List InventoryRefreshSource × SourcesDb) : Prop where
  stored : (db.unchanged out row).isSome = true →
    (∃ o, after.2.outputs.get? source = some o ∧ o.refreshId = some id ∧ o.data = graph ∧
      o.inputSha256 = row.inputSha256) ∧
    ∃ row' ∈ after.1, row'.sourceId = some source ∧ row'.status = some .success
  stale : (db.unchanged out row).isSome = false →
    after.2.outputs.get? source = db.outputs.get? source ∧
    ∃ row' ∈ after.1, row'.sourceId = some source ∧ row'.status = some .stale

theorem outputSettled_result {staged : Staged} {results : List RefreshSourceResultIn}
    {row row' : InventoryRefreshSource} {db db' : SourcesDb} {source : SourceId}
    {r : RefreshSourceResultIn} {body : Bytes} {graph : SourceGraph} {warnings : List String}
    (h : storeResult out now staged id results row db = .ok (row', db'))
    (hid : row.sourceId = some source) (hran : row.ran = true) (hstatus : row.status = none)
    (hr : reported results source = some r) (hsuccess : r.status = .success)
    (hread : readPart out staged (.source source) r.bytes r.sha256 = some body)
    (hparse : out.parseOutput body = .ok (graph, warnings)) :
    OutputSettled out id row source graph db ([row'], db') := by
  have hstore : (row', db') = db.storeSourceOutput out now id row body r.scrubbed := by
    unfold storeResult at h
    simp only [hid, hran, hstatus, hr, hsuccess, hread] at h
    exact (Except.ok.inj h).symm
  unfold SourcesDb.storeSourceOutput at hstore
  rw [hparse] at hstore
  dsimp only at hstore
  cases hkept : db.unchanged out row with
  | none =>
    rw [hkept] at hstore
    obtain ⟨rfl, rfl⟩ := Prod.mk.inj hstore
    exact ⟨fun hsome => absurd hsome (by simp [hkept]),
      fun _ => ⟨rfl, _, List.mem_singleton_self _, hid, rfl⟩⟩
  | some found =>
    obtain ⟨source', kept⟩ := found
    obtain ⟨hid', -, -⟩ := get?_of_unchanged hkept
    rw [hid] at hid'
    obtain rfl := Option.some.inj hid'
    rw [hkept] at hstore
    obtain ⟨rfl, rfl⟩ := Prod.mk.inj hstore
    exact ⟨fun _ => ⟨⟨_, Table.get?_put_self _ _ _, rfl, rfl, rfl⟩, _, List.mem_singleton_self _,
      hid, rfl⟩, fun hnone => absurd hnone (by simp [hkept])⟩

theorem outputSettled_rows {staged : Staged} {results : List RefreshSourceResultIn}
    {rows : List InventoryRefreshSource} {row : InventoryRefreshSource} {db : SourcesDb}
    {after : List InventoryRefreshSource × SourcesDb} {source : SourceId}
    {r : RefreshSourceResultIn} {body : Bytes} {graph : SourceGraph} {warnings : List String}
    (h : storeRows out now staged id results rows db = .ok after)
    (hnodup : (rows.filterMap InventoryRefreshSource.sourceId).Nodup) (hrow : row ∈ rows)
    (hid : row.sourceId = some source) (hran : row.ran = true) (hstatus : row.status = none)
    (hr : reported results source = some r) (hsuccess : r.status = .success)
    (hread : readPart out staged (.source source) r.bytes r.sha256 = some body)
    (hparse : out.parseOutput body = .ok (graph, warnings)) :
    OutputSettled out id row source graph db after := by
  induction rows generalizing db after with
  | nil => exact absurd hrow (by simp)
  | cons first rows ih =>
    obtain ⟨first', db', rows', hfirst, hrows, hafter⟩ := storeRows_cons h
    rcases List.mem_cons.mp hrow with rfl | hmem
    · have hothers : ∀ other ∈ rows, other.sourceId ≠ some source := by
        intro other hother hsame
        rw [List.filterMap_cons_some hid, List.nodup_cons] at hnodup
        exact hnodup.1 (List.mem_filterMap.mpr ⟨other, hother, hsame⟩)
      have hrest := outputs_others hrows hothers
      have hself := outputSettled_result hfirst hid hran hstatus hr hsuccess hread hparse
      constructor
      · intro hsome
        obtain ⟨⟨o, ho, hfacts⟩, done, hdone, hdfacts⟩ := hself.stored hsome
        refine ⟨⟨o, hrest.trans ho, hfacts⟩, done, ?_, hdfacts⟩
        rw [hafter, List.mem_singleton.mp hdone]
        exact List.mem_cons_self
      · intro hnone
        obtain ⟨ho, done, hdone, hdfacts⟩ := hself.stale hnone
        refine ⟨hrest.trans ho, done, ?_, hdfacts⟩
        rw [hafter, List.mem_singleton.mp hdone]
        exact List.mem_cons_self
    · have hne : first.sourceId ≠ some source := by
        intro hsame
        rw [List.filterMap_cons_some hsame, List.nodup_cons] at hnodup
        exact hnodup.1 (List.mem_filterMap.mpr ⟨row, hmem, hid⟩)
      have hnodup' : (rows.filterMap InventoryRefreshSource.sourceId).Nodup :=
        hnodup.sublist ((List.sublist_cons_self _ _).filterMap _)
      have hrest := ih hrows hnodup' hmem
      have hsame := @unchanged_congr out _ _ row (settles_result hfirst).sources
      have houtput := outputs_other hfirst hne
      constructor
      · intro hsome
        obtain ⟨ho, done, hdone, hdfacts⟩ := hrest.stored (by rw [hsame]; exact hsome)
        refine ⟨ho, done, ?_, hdfacts⟩
        rw [hafter]
        exact List.mem_cons_of_mem _ hdone
      · intro hnone
        obtain ⟨ho, done, hdone, hdfacts⟩ := hrest.stale (by rw [hsame]; exact hnone)
        refine ⟨ho.trans houtput, done, ?_, hdfacts⟩
        rw [hafter]
        exact List.mem_cons_of_mem _ hdone

end RefreshReport

end AnsiDeck
