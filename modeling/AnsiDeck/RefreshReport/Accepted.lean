import AnsiDeck.RefreshReport.Success
import AnsiDeck.RefreshReport.Worker
import Mathlib.Data.List.Nodup

/-!
# The report of an honest worker is taken

Whatever is done about the sources while a refresh runs, its worker's report matches the rows and
the staged files, as long as no source it was given a call for is deleted first: each call's row is
there and not settled, each uploaded output is staged as it was sent (`Serving`).
-/

namespace AnsiDeck

namespace RefreshReport

open Lib (Table)
open Lib.System (ReachableBy)
open InventorySources (Db SourcesDb Outputs isConstructed)
open InventorySources.SourcesDb (orphanedRow buildCall)
open InternalApi

variable {ε : Type} {out : Outputs} {fmt : EventFormat ε} {id : RefreshId} {claim : Digest}

/-! ## The rows a job is built with -/

/-- A row for each source, and a call for some of those that run. -/
structure Built (sources : List SourceId) (rows : List InventoryRefreshSource)
    (calls : List SourceId) : Prop where
  ids : rows.map InventoryRefreshSource.sourceId = sources.map some
  given : calls.Sublist sources
  unsettled : ∀ c ∈ calls, ∃ row ∈ rows, row.sourceId = some c ∧ row.ran = true ∧ row.status = none

theorem buildCall_spec {now : Time} {scope : Option (Finset SourceId)}
    {unreadable : SourceId → Option String} {source : SourceId} {kept : InventorySource}
    {acc : List InventoryRefreshSource × List SourceId × SourcesDb} {sources : List SourceId}
    (h : Built sources acc.1 acc.2.1) :
    Built (sources ++ [source]) (buildCall out now scope unreadable source kept acc).1
      (buildCall out now scope unreadable source kept acc).2.1 := by
  obtain ⟨rows, calls, db⟩ := acc
  -- a row more, without a call
  have hrow : ∀ row : InventoryRefreshSource, row.sourceId = some source →
      Built (sources ++ [source]) (rows ++ [row]) calls := by
    intro row hid
    refine ⟨by simp [h.ids, hid], h.given.trans (List.sublist_append_left _ _), ?_⟩
    intro c hc
    obtain ⟨old, hold, hfacts⟩ := h.unsettled c hc
    exact ⟨old, List.mem_append_left _ hold, hfacts⟩
  unfold buildCall
  dsimp only
  split
  · exact hrow _ rfl
  · next hran =>
    split
    · exact hrow _ (@settles_failure out now _ _ _).sourceId
    · refine ⟨(hrow _ rfl).ids, h.given.append (List.Sublist.refl _), ?_⟩
      intro c hc
      rcases List.mem_append.mp hc with hold | hnew
      · obtain ⟨row, hmem, hfacts⟩ := h.unsettled c hold
        exact ⟨row, List.mem_append_left _ hmem, hfacts⟩
      · obtain rfl := List.mem_singleton.mp hnew
        exact ⟨_, List.mem_append_right _ (List.mem_singleton_self _), rfl, by
          simpa using hran, rfl⟩

theorem built_foldl {now : Time} {scope : Option (Finset SourceId)}
    {unreadable : SourceId → Option String} {todo : List (SourceId × InventorySource)}
    {acc : List InventoryRefreshSource × List SourceId × SourcesDb} {sources : List SourceId}
    (h : Built sources acc.1 acc.2.1) :
    Built (sources ++ todo.map Prod.fst)
      (todo.foldl (fun acc e => buildCall out now scope unreadable e.1 e.2 acc) acc).1
      (todo.foldl (fun acc e => buildCall out now scope unreadable e.1 e.2 acc) acc).2.1 := by
  induction todo generalizing acc sources with
  | nil => simpa using h
  | cons e todo ih =>
    have hstep : Built (sources ++ [e.1]) (buildCall out now scope unreadable e.1 e.2 acc).1
        (buildCall out now scope unreadable e.1 e.2 acc).2.1 := buildCall_spec h
    simpa using ih hstep

theorem orderedSources_nodup (db : SourcesDb) (inventory : InventoryId) :
    ((db.orderedSources inventory).map Prod.fst).Nodup := by
  have hkeys : ((db.sources.entries.map fun e => (e.1, e.2)).map Prod.fst).Nodup := by
    have hnodup : (db.sources.entries.map Sigma.fst).Nodup := db.sources.nodupKeys
    rwa [List.map_map]
  have hsorted : ((db.sourcesOf inventory).map Prod.fst).Nodup := by
    unfold SourcesDb.sourcesOf
    refine ((List.perm_insertionSort _ _).map Prod.fst).nodup_iff.mpr ?_
    exact hkeys.sublist (List.filter_sublist.map Prod.fst)
  have henabled := hsorted.sublist
    ((List.filter_sublist (p := fun e : SourceId × InventorySource => e.2.enabled)
      (l := db.sourcesOf inventory)).map Prod.fst)
  unfold SourcesDb.orderedSources
  dsimp only
  refine (List.Perm.map Prod.fst ?_).nodup_iff.mpr henabled
  refine List.perm_append_comm.trans ?_
  exact List.filter_append_perm (fun e : SourceId × InventorySource => isConstructed e.2) _

theorem built_job {now : Time} {db db' : SourcesDb} {row : InventoryRefresh}
    {unreadable : SourceId → Option String} {calls : List SourceId}
    (h : (calls, db') = db.buildRefreshJob out now id row unreadable) :
    Built ((db.orderedSources row.inventoryId).map Prod.fst) (db'.refreshRows id) calls := by
  have hnone : Built [] [] [] := ⟨rfl, List.Sublist.refl _, fun c hc => absurd hc (by simp)⟩
  have hbuilt := @built_foldl out now row.scope unreadable (db.orderedSources row.inventoryId)
    ([], [], db) [] hnone
  rw [List.nil_append] at hbuilt
  obtain ⟨hcalls, hdb⟩ := Prod.mk.inj h
  subst hcalls hdb
  have hrows : ∀ (d : SourcesDb) (rows : List InventoryRefreshSource)
      (refreshes : Table RefreshId InventoryRefresh),
      SourcesDb.refreshRows { d.putRows id rows with refreshes := refreshes } id = rows := by
    intro d rows refreshes
    exact refreshRows_putRows d rows
  rw [hrows]
  exact hbuilt

/-- Dropping what a function gives for some elements. -/
theorem filterMap_sublist {α β : Type} {f g : α → Option β} (h : ∀ a b, f a = some b → g a = some b)
    (l : List α) : (l.filterMap f).Sublist (l.filterMap g) := by
  induction l with
  | nil => exact List.Sublist.refl _
  | cons a l ih =>
    cases hf : f a with
    | none =>
      rw [List.filterMap_cons_none hf]
      cases hg : g a with
      | none => rw [List.filterMap_cons_none hg]; exact ih
      | some b => rw [List.filterMap_cons_some hg]; exact ih.cons b
    | some b =>
      rw [List.filterMap_cons_some hf, List.filterMap_cons_some (h a b hf)]
      exact ih.cons_cons b

/-! ## The invariant -/

/-- The result of an uploaded output. -/
def Uploaded (out : Outputs) (results : List RefreshSourceResultIn) (source : SourceId)
    (body : Bytes) : Prop :=
  ∃ r ∈ results, r.sourceId = source ∧ r.status = .success ∧ r.bytes = body.length ∧
    r.sha256 = some (out.sha256 body)

theorem Uploaded.mem {results : List RefreshSourceResultIn} {source : SourceId} {body : Bytes}
    (h : Uploaded out results source body) :
    source ∈ results.map RefreshSourceResultIn.sourceId := by
  obtain ⟨r, hr, rfl, -⟩ := h
  exact List.mem_map_of_mem hr

theorem Uploaded.append {results more : List RefreshSourceResultIn} {source : SourceId}
    {body : Bytes} (h : Uploaded out results source body) :
    Uploaded out (results ++ more) source body := by
  obtain ⟨r, hr, hfacts⟩ := h
  exact ⟨r, List.mem_append_left _ hr, hfacts⟩

/-- What holds of the worker while the sources run. -/
structure Serving (out : Outputs) (id : RefreshId) (api : State) (w : Worker) : Prop where
  /-- One result for each call that has ended, in order. -/
  results : w.results.map RefreshSourceResultIn.sourceId ++
    (w.current.toList.map Upload.source ++ w.todo) = api.calls
  nodup : api.calls.Nodup
  distinct : ((api.db.refreshRows id).filterMap InventoryRefreshSource.sourceId).Nodup
  unsettled : ∀ c ∈ api.calls, ∃ row ∈ api.db.refreshRows id, row.sourceId = some c ∧
    row.ran = true ∧ row.status = none
  staged : ∀ c body, (c, body) ∈ w.sent →
    Uploaded out w.results c body ∧ stagedBytes api.staged (.source c) = body
  sent : ∀ r ∈ w.results, r.status = .success → ∃ body, (r.sourceId, body) ∈ w.sent ∧
    r.bytes = body.length ∧ r.sha256 = some (out.sha256 body)
  /-- What is staged of the upload begins with what was taken of it. -/
  uploading : ∀ u, w.current = some u → u.offset < u.body.length ∧
    (u.offset = 0 ∨ ∃ n, u.offset ≤ n ∧ stagedBytes api.staged (.source u.source) = u.body.take n)

/-- No source is deleted while a call of the job is about it. -/
def calledKept (id : RefreshId) (claim : Digest) (s : WithWorker) : WorkerLabel → Prop
  | .api (.deleteSource source) =>
    stage? id claim s.api.db = some (some "sources") → source ∉ s.api.calls
  | _ => True

instance (s : WithWorker) (a : WorkerLabel) : Decidable (calledKept id claim s a) := by
  unfold calledKept
  split <;> infer_instance

def Attended (out : Outputs) (id : RefreshId) (claim : Digest) (s : WithWorker) : Prop :=
  stage? id claim s.api.db = some (some "sources") →
    ∃ w, s.worker = some w ∧ Serving out id s.api w

theorem Serving.current_mem {api : State} {w : Worker} (h : Serving out id api w) {u : Upload}
    (hu : w.current = some u) : u.source ∈ api.calls ∧
      u.source ∉ w.results.map RefreshSourceResultIn.sourceId := by
  have hcalls := h.results
  have hnodup := h.nodup
  rw [← hcalls, hu] at hnodup
  refine ⟨by rw [← hcalls, hu]; simp, ?_⟩
  exact (List.disjoint_of_nodup_append hnodup).symm (by simp)

theorem Serving.calm {s t : State} {w : Worker} {a : Label} (h : Serving out id s w)
    (hc : Calm id claim a s t) (hstage : stage? id claim t.db = some (some "sources"))
    (hkept : ∀ source, a = .deleteSource source → source ∉ s.calls) : Serving out id t w := by
  have hstaged : t.staged = s.staged := by
    rcases hc.staged with heq | hover
    · exact heq
    · rw [hover] at hstage
      exact absurd hstage (by simp)
  refine ⟨by rw [hc.calls]; exact h.results, by rw [hc.calls]; exact h.nodup, ?_, ?_,
    by rw [hstaged]; exact h.staged, h.sent, by rw [hstaged]; exact h.uploading⟩
  · rcases hc.rows with hrows | ⟨source, -, hrows⟩
    · rw [hrows]
      exact h.distinct
    · rw [hrows, List.filterMap_map]
      refine h.distinct.sublist (filterMap_sublist ?_ _)
      intro row c hc'
      simp only [Function.comp_apply, orphanedRow] at hc'
      split at hc'
      · exact absurd hc' (by simp)
      · exact hc'
  · rw [hc.calls]
    intro c hmem
    obtain ⟨row, hrow, hid, hfacts⟩ := h.unsettled c hmem
    rcases hc.rows with hrows | ⟨source, ha, hrows⟩
    · exact ⟨row, by rw [hrows]; exact hrow, hid, hfacts⟩
    · have hne : row.sourceId ≠ some source := by
        intro hsame
        rw [hid] at hsame
        exact hkept source ha (Option.some.inj hsame ▸ hmem)
      have hsame : orphanedRow source row = row := by rw [orphanedRow, if_neg hne]
      exact ⟨row, by rw [hrows, ← hsame]; exact List.mem_map_of_mem hrow, hid, hfacts⟩

theorem Serving.built {api : State} {now : Time} {db : SourcesDb} {row : InventoryRefresh}
    {unreadable : SourceId → Option String}
    (h : (api.calls, api.db) = db.buildRefreshJob out now id row unreadable) :
    Serving out id api { todo := api.calls } := by
  have hbuilt := built_job h
  have hsources := orderedSources_nodup db row.inventoryId
  refine ⟨rfl, hsources.sublist hbuilt.given, ?_, hbuilt.unsettled,
    fun c body hmem => absurd hmem (by simp), fun r hmem => absurd hmem (by simp),
    fun u hu => absurd hu (by simp)⟩
  have hids : (api.db.refreshRows id).filterMap InventoryRefreshSource.sourceId
      = (db.orderedSources row.inventoryId).map Prod.fst := by
    calc (api.db.refreshRows id).filterMap InventoryRefreshSource.sourceId
        = ((api.db.refreshRows id).map InventoryRefreshSource.sourceId).filterMap (fun x => x) := by
          rw [List.filterMap_map]; rfl
      _ = (((db.orderedSources row.inventoryId).map Prod.fst).map some).filterMap (fun x => x) := by
          rw [hbuilt.ids]
      _ = (db.orderedSources row.inventoryId).map Prod.fst := by
          rw [List.filterMap_map]; exact List.filterMap_some
  rw [hids]
  exact hsources

/-- A call ends in a failure. -/
theorem Serving.failed {api : State} {w w' : Worker} {source : SourceId} {error : String}
    (h : Serving out id api w) (hresults : w'.results = w.results) (hsent : w'.sent = w.sent)
    (hnext : w.current.toList.map Upload.source ++ w.todo = source :: w'.todo) :
    Serving out id api (w'.failed source error) := by
  refine ⟨?_, h.nodup, h.distinct, h.unsettled, ?_, ?_, fun u hu =>
    absurd hu (by simp [Worker.failed])⟩
  · rw [← h.results, hnext]
    simp [Worker.failed, hresults]
  · intro c body hmem
    obtain ⟨hc, hbody⟩ := h.staged c body (by rw [← hsent]; exact hmem)
    refine ⟨?_, hbody⟩
    simp only [Worker.failed, hresults]
    exact hc.append
  · intro r hr hsuccess
    simp only [Worker.failed, hresults] at hr
    rcases List.mem_append.mp hr with hold | hnew
    · obtain ⟨body, hbody, hfacts⟩ := h.sent r hold hsuccess
      exact ⟨body, by simp only [Worker.failed, hsent]; exact hbody, hfacts⟩
    · rw [List.mem_singleton.mp hnew] at hsuccess
      exact absurd hsuccess RunStatus.noConfusion

/-- What the API stages of a chunk, and answers: never that the source isn't one of the refresh's,
nor that bytes are missing. -/
theorem Serving.staging {api : State} {w : Worker} {u : Upload} (h : Serving out id api w)
    (hu : w.current = some u) (hstage : stage? id claim api.db = some (some "sources")) :
    (appendOutput out api.db api.staged id claim u.offset (.source u.source) u.chunk
        = (.tooLarge, api.staged)) ∨
      ∃ n, u.offset ≤ n ∧
        appendOutput out api.db api.staged id claim u.offset (.source u.source) u.chunk
          = (.taken (min n u.body.length),
            api.staged.put (.source u.source) (u.body.take n)) := by
  obtain ⟨row, hrow, hrowStage⟩ := Option.map_eq_some_iff.mp hstage
  obtain ⟨hlt, hprefix⟩ := h.uploading u hu
  obtain ⟨r, hr, hid, hran, -⟩ := h.unsettled u.source (h.current_mem hu).1
  have hallowed : partAllowed api.db id row (.source u.source) = true := by
    simp only [partAllowed, hrowStage, ranSource, decide_true, Bool.true_and]
    refine List.any_eq_true.mpr ⟨r, List.mem_filter.mpr ⟨hr, ?_⟩, by simp [hid]⟩
    simp [hran, hid]
  have htake : (stagedBytes api.staged (.source u.source)).take u.offset =
      u.body.take u.offset := by
    rcases hprefix with hzero | ⟨n, hn, hfile⟩
    · simp [hzero]
    · rw [hfile, List.take_take, Nat.min_eq_left hn]
  have hreached : ¬(stagedBytes api.staged (.source u.source)).length < u.offset := by
    rcases hprefix with hzero | ⟨n, hn, hfile⟩
    · omega
    · rw [hfile, List.length_take]
      omega
  have hlength : u.offset + u.chunk.length = min (u.offset + refreshChunkBytes) u.body.length := by
    rw [Upload.chunk, List.length_take, List.length_drop]
    omega
  unfold appendOutput
  rw [hrow]
  dsimp only
  rw [if_neg (by simp [hallowed]), if_neg hreached]
  split
  · exact Or.inl rfl
  · rw [hlength, htake, Upload.chunk, ← List.take_add]
    exact Or.inr ⟨u.offset + refreshChunkBytes, Nat.le_add_right _ _, rfl⟩

theorem stagedBytes_put_self (staged : Staged) (part : Part) (raw : Bytes) :
    stagedBytes (staged.put part raw) part = raw := by
  rw [stagedBytes, Table.get?_put_self, Option.getD_some]

theorem stagedBytes_put_of_ne (staged : Staged) {part part' : Part} (raw : Bytes)
    (h : part' ≠ part) : stagedBytes (staged.put part raw) part' = stagedBytes staged part' := by
  rw [stagedBytes, Table.get?_put_of_ne _ _ h, stagedBytes]

/-- The upload stages more of its own output, and of no other. -/
theorem Serving.put {api : State} {w : Worker} {u : Upload} {n : Nat} (h : Serving out id api w)
    (hu : w.current = some u) (hn : u.offset ≤ n) :
    Serving out id { api with staged := api.staged.put (.source u.source) (u.body.take n) } w := by
  refine ⟨h.results, h.nodup, h.distinct, h.unsettled, ?_, h.sent, ?_⟩
  · intro c body hmem
    obtain ⟨hc, hbody⟩ := h.staged c body hmem
    refine ⟨hc, ?_⟩
    have hne : c ≠ u.source := by
      rintro rfl
      exact (h.current_mem hu).2 hc.mem
    rw [stagedBytes_put_of_ne _ _ fun heq => hne (Part.source.inj heq)]
    exact hbody
  · intro u' hu'
    rw [hu] at hu'
    obtain rfl := Option.some.inj hu'
    exact ⟨(h.uploading u hu).1, Or.inr ⟨n, hn, stagedBytes_put_self _ _ _⟩⟩

/-- The worker goes on after an answer. -/
theorem Serving.goOn {api : State} {w : Worker} {u : Upload} {offset n : Nat}
    (h : Serving out id api w) (hu : w.current = some u) (hn : offset ≤ n)
    (hstaged : stagedBytes api.staged (.source u.source) = u.body.take n) :
    Serving out id api (w.goOn out u offset) := by
  have hcalls := h.results
  rw [hu] at hcalls
  unfold Worker.goOn
  split
  · next hlt =>
    refine ⟨hcalls, h.nodup, h.distinct, h.unsettled, h.staged, h.sent, ?_⟩
    intro u' hu'
    obtain rfl := Option.some.inj hu'
    exact ⟨hlt, Or.inr ⟨n, hn, hstaged⟩⟩
  · next hdone =>
    have hall : stagedBytes api.staged (.source u.source) = u.body := by
      rw [hstaged]
      exact List.take_of_length_le (by omega)
    refine ⟨?_, h.nodup, h.distinct, h.unsettled, ?_, ?_, fun u' hu' => absurd hu' (by simp)⟩
    · rw [← hcalls]
      simp
    · intro c body hmem
      rcases List.mem_append.mp hmem with hold | hnew
      · obtain ⟨hc, hbody⟩ := h.staged c body hold
        exact ⟨hc.append, hbody⟩
      · obtain ⟨rfl, rfl⟩ := Prod.mk.inj (List.mem_singleton.mp hnew)
        exact ⟨⟨_, List.mem_append_right _ (List.mem_singleton_self _), rfl, rfl, rfl, rfl⟩, hall⟩
    · intro r hr hsuccess
      rcases List.mem_append.mp hr with hold | hnew
      · obtain ⟨body, hbody, hfacts⟩ := h.sent r hold hsuccess
        exact ⟨body, List.mem_append_left _ hbody, hfacts⟩
      · rw [List.mem_singleton.mp hnew]
        exact ⟨u.body, List.mem_append_right _ (List.mem_singleton_self _), rfl, rfl⟩

theorem attended_inductive :
    (withWorker out fmt id claim).Inductive (calledKept id claim) (Attended out id claim) := by
  constructor
  · intro s hs hstage
    simp only [withWorker, claimed, Bool.and_eq_true] at hs
    obtain ⟨row, hrow, hfresh⟩ := (Option.any_eq_true _ _).mp hs.1.1.1
    rw [stage?_of_locked hrow] at hstage
    simp [Option.some.inj hstage] at hfresh
  · intro s a t h hok hstep hstage
    cases a with
    | api a =>
      simp only [withWorker, serve] at hstep
      split at hstep
      · exact absurd hstep (by simp)
      · next ha =>
        obtain ⟨api, hapi, rfl⟩ := Option.map_eq_some_iff.mp hstep
        have hcalm := calm_step (by simpa using ha) hapi
        have hbefore : stage? id claim s.api.db = some (some "sources") := by
          rcases hcalm.stage with heq | hover
          · rw [← heq]
            exact hstage
          · exact absurd (hover.symm.trans hstage) (by simp)
        obtain ⟨w, hw, hserving⟩ := h hbefore
        refine ⟨w, hw, hserving.calm hcalm hstage ?_⟩
        rintro source rfl
        exact hok hbefore
    | fetch how =>
      simp only [withWorker, serve] at hstep
      split at hstep
      · exact absurd hstep (by simp)
      · next hnone =>
        obtain ⟨api, hapi, hput⟩ := Option.bind_eq_some_iff.mp hstep
        obtain rfl := Option.some.inj hput
        have hlocked : (lockedRefresh api.db id claim).isSome = true := by
          obtain ⟨row, hrow, -⟩ := Option.map_eq_some_iff.mp hstage
          rw [hrow]
          rfl
        rcases fetchJob_spec hapi with hcalm | ⟨row, unreadable, -, -, hbuilt, -⟩
        · -- the claim is over, or was served before
          rcases hcalm.stage with heq | hover
          · obtain ⟨w, hw, -⟩ := h (heq.symm.trans hstage)
            exact absurd (by rw [hw]; rfl) hnone
          · exact absurd (hover.symm.trans hstage) (by simp)
        · exact ⟨_, if_pos hlocked, .built hbuilt⟩
    | callFailed error =>
      obtain ⟨w, hw, hnext⟩ := Option.bind_eq_some_iff.mp hstep
      split at hnext
      · next source todo htodo hcurrent =>
        obtain rfl := Option.some.inj hnext
        obtain ⟨w', hw', hserving⟩ := h hstage
        obtain rfl := Option.some.inj (hw.symm.trans hw')
        exact ⟨_, rfl, hserving.failed rfl rfl (by rw [hcurrent, htodo]; rfl)⟩
      · exact absurd hnext (by simp)
    | callEnded body scrubbed =>
      obtain ⟨w, hw, hnext⟩ := Option.bind_eq_some_iff.mp hstep
      split at hnext
      · next source todo htodo hcurrent =>
        split at hnext
        · exact absurd hnext (by simp)
        · next hbody =>
          obtain rfl := Option.some.inj hnext
          obtain ⟨w', hw', hserving⟩ := h hstage
          obtain rfl := Option.some.inj (hw.symm.trans hw')
          refine ⟨_, rfl, ⟨?_, hserving.nodup, hserving.distinct, hserving.unsettled,
            hserving.staged, hserving.sent, ?_⟩⟩
          · rw [← hserving.results, hcurrent, htodo]
            rfl
          · intro u hu
            obtain rfl := Option.some.inj hu
            exact ⟨List.length_pos_iff.mpr (by simpa using hbody), Or.inl rfl⟩
      · exact absurd hnext (by simp)
    | chunk lostAnswer =>
      obtain ⟨w, hw, hcurrent⟩ := Option.bind_eq_some_iff.mp hstep
      obtain ⟨u, hu, hsend⟩ := Option.bind_eq_some_iff.mp hcurrent
      obtain ⟨api, hapi, hput⟩ := Option.bind_eq_some_iff.mp hsend
      obtain rfl := Option.some.inj hput
      obtain rfl := Option.some.inj hapi
      obtain ⟨w', hw', hserving⟩ := h hstage
      obtain rfl := Option.some.inj (hw.symm.trans hw')
      refine ⟨_, rfl, ?_⟩
      rcases hserving.staging hu hstage with hanswer | ⟨n, hn, hanswer⟩
      · rw [hanswer]
        cases lostAnswer with
        | true => exact hserving
        | false => exact hserving.failed rfl rfl (by rw [hu]; rfl)
      · rw [hanswer]
        have hmore := hserving.put hu hn
        cases lostAnswer with
        | true => exact hmore
        | false => exact hmore.goOn hu (by omega) (stagedBytes_put_self _ _ _)
    | giveUp =>
      obtain ⟨w, hw, hcurrent⟩ := Option.bind_eq_some_iff.mp hstep
      obtain ⟨u, hu, hput⟩ := Option.bind_eq_some_iff.mp hcurrent
      obtain rfl := Option.some.inj hput
      obtain ⟨w', hw', hserving⟩ := h hstage
      obtain rfl := Option.some.inj (hw.symm.trans hw')
      exact ⟨_, rfl, hserving.failed rfl rfl (by rw [hu]; rfl)⟩
    | report combined new =>
      obtain ⟨w, hw, hreport⟩ := Option.bind_eq_some_iff.mp hstep
      split at hreport
      · obtain ⟨api, hapi, hput⟩ := Option.bind_eq_some_iff.mp hreport
        obtain rfl := Option.some.inj hput
        simp only [step] at hapi
        split at hapi
        · obtain ⟨o, ho, rfl⟩ := Option.map_eq_some_iff.mp hapi
          have hover : ∀ db row, Combined fmt s.api.now db id row new o →
              stage? id claim o.db ≠ some (some "sources") := by
            intro db row hc hsources
            cases hc with
            | handedOut ho =>
              subst ho
              obtain ⟨found, hfound, hcombine⟩ := Option.map_eq_some_iff.mp hsources
              have hget := (lockedRefresh_eq_some.mp hfound).1
              simp only [Table.get?_put_self, Option.some.injEq] at hget
              rw [← hget] at hcombine
              exact absurd hcombine (by simp)
            | failed hf => exact absurd (hf.stage?.symm.trans hsources) (by simp)
            | finished hf => exact absurd (hf.stage?.symm.trans hsources) (by simp)
          rcases refreshSources_spec ho with ⟨hdb, hended⟩ | ⟨row, hrow, hf | ⟨-, stored, -, hc⟩ |
            ⟨-, hc⟩⟩
          · have hsame : after s.api o = s.api := by
              unfold after
              rw [hdb, hended]
              rfl
            rw [hsame] at hstage ⊢
            exact h hstage
          · exact absurd (hf.stage?.symm.trans hstage) (by simp)
          · exact absurd hstage (hover _ _ hc)
          · exact absurd hstage (hover _ _ hc)
        · exact absurd hapi (by simp)
      · exact absurd hreport (by simp)

/-! ## The report -/

/-- Failing a refresh never raises: its runs are failed without looking at them. -/
theorem endRefresh_isSome {db : SourcesDb} {now : Time} {row : InventoryRefresh}
    {status : RunStatus}
    {error : Option String} {answer : RefreshAnswer} (hfailed : status ≠ .success) :
    (endRefresh fmt now db id row status error answer).isSome = true := by
  have hall : ∀ d : Db, (d.releaseWaitingRuns fmt now id row status error).isSome = true := by
    intro d
    unfold Db.releaseWaitingRuns
    dsimp only
    rw [if_pos]
    · rfl
    · apply Table.all_iff.mpr
      intro k run _
      unfold Db.releaseRun Db.made
      rw [if_neg hfailed]
      split <;> rfl
  unfold endRefresh SourcesDb.lift
  simp only [Option.isSome_map]
  exact hall _

/-- The worker's uploads, as its report finds them. -/
theorem Serving.readPart {api : State} {w : Worker} (h : Serving out id api w)
    {r : RefreshSourceResultIn} (hr : r ∈ w.results) (hsuccess : r.status = .success) :
    ∃ body, (r.sourceId, body) ∈ w.sent ∧
      InternalApi.readPart out api.staged (.source r.sourceId) r.bytes r.sha256 = some body := by
  obtain ⟨body, hbody, hbytes, hsha⟩ := h.sent r hr hsuccess
  obtain ⟨-, hstaged⟩ := h.staged r.sourceId body hbody
  refine ⟨body, hbody, ?_⟩
  unfold InternalApi.readPart
  rw [hstaged, if_pos ⟨hbytes.symm, hsha.symm⟩]

/-- The refresh goes on to its combine, or has ended. -/
def GoesOn (id : RefreshId) (claim : Digest) (o : RefreshOutcome) : Prop :=
  (o.answer = .combine ∧ stage? id claim o.db = some (some "combine")) ∨
    (o.ended = true ∧ ∃ row, o.db.refreshes.get? id = some row ∧ row.status.finished = true)

theorem Failed.goesOn {now : Time} {db : SourcesDb} {row : InventoryRefresh} {o : RefreshOutcome}
    (h : Failed fmt now db id row o) : GoesOn id claim o := by
  obtain ⟨status, error, d, hstatus, -, hdb, hend⟩ := h.failed
  refine Or.inr ⟨h.ended, InventorySources.Db.ended now status error row, ?_, hstatus⟩
  rw [hdb]
  show d.refreshes.get? id = _
  rw [(InventorySources.endRefresh_released hend).refreshes, Table.get?_put_self]

theorem Finished.goesOn {now : Time} {db : SourcesDb} {row : InventoryRefresh} {new : SnapshotId}
    {o : RefreshOutcome} (h : Finished fmt now db id row new o) : GoesOn id claim o := by
  obtain ⟨data, d, hdb, hend⟩ := h.finished
  have hended : ∀ status error refresh (before : Db), status.finished = true →
      before.endRefresh fmt now id refresh status error = some d → GoesOn id claim o := by
    intro status error refresh before hstatus hd
    refine Or.inr ⟨h.ended, InventorySources.Db.ended now status error refresh, ?_, hstatus⟩
    rw [hdb]
    show d.refreshes.get? id = _
    rw [(InventorySources.endRefresh_released hd).refreshes, Table.get?_put_self]
  have hstatus := InventorySources.sourcesOutcome_finished (db.refreshRows id)
  unfold Db.finishRefresh at hend
  dsimp only at hend
  split at hend
  · exact hended _ _ _ _ hstatus hend
  · exact hended _ _ _ _ hstatus hend

/-- What combining does to the rest: the outputs and the rows stay as they were stored. -/
theorem Combined.goesOn {now : Time} {db : SourcesDb} {row : InventoryRefresh} {new : SnapshotId}
    {o : RefreshOutcome} (h : Combined fmt now db id row new o) (hstatus : row.status = .running)
    (hclaim : row.claimTokenHash = some claim) :
    GoesOn id claim o ∧ (∀ detail, o.answer ≠ .conflict detail) ∧
      o.db.outputs = db.outputs ∧ o.db.refreshSources = db.refreshSources := by
  cases h with
  | handedOut ho =>
    subst ho
    refine ⟨Or.inl ⟨rfl, ?_⟩, fun _ => RefreshAnswer.noConfusion, rfl, rfl⟩
    exact stage?_put { row with stage := some "combine" } (Table.get?_put_self _ _ _) hstatus hclaim
  | failed hf =>
    obtain ⟨status, error, d, -, -, hdb, -⟩ := hf.failed
    exact ⟨hf.goesOn, hf.answer, by rw [hdb], by rw [hdb]⟩
  | finished hf =>
    obtain ⟨data, d, hdb, -⟩ := hf.finished
    refine ⟨hf.goesOn, ?_, by rw [hdb], by rw [hdb]⟩
    intro detail
    rw [hf.answer]
    exact RefreshAnswer.noConfusion

/-- What the report of a worker that has finished its calls comes to. -/
structure Accepted (out : Outputs) (fmt : EventFormat ε) (id : RefreshId) (claim : Digest)
    (s : State) (w : Worker) : Prop where
  /-- One result for each call, in order. -/
  complete : w.results.map RefreshSourceResultIn.sourceId = s.calls
  /-- Storing the results never raises: an HTTP 500 comes from combining or from the end. -/
  raises : ∀ combined new,
    refreshSources out fmt s.now s.db s.staged id claim w.results combined new = none →
    combined = .error .raises ∨ ∃ stored row data,
      storeResults out s.now s.db s.staged id w.results = .ok stored ∧ combined = .ok data ∧
      finishRefresh fmt s.now stored id row new data = none
  /-- Any other answer takes the report, and the refresh goes on. -/
  taken : ∀ combined new o,
    refreshSources out fmt s.now s.db s.staged id claim w.results combined new = some o →
    (∀ detail, o.answer ≠ .conflict detail) ∧ GoesOn id claim o
  /-- While the inventory is there, each uploaded output that can be parsed is stored, or stale. -/
  stored : ∀ combined new o row,
    refreshSources out fmt s.now s.db s.staged id claim w.results combined new = some o →
    s.db.refreshes.get? id = some row → (s.db.inventories.get? row.inventoryId).isSome = true →
    ∀ source body graph warnings, (source, body) ∈ w.sent →
      out.parseOutput body = .ok (graph, warnings) →
      ∃ made ∈ s.db.refreshRows id, made.sourceId = some source ∧
        OutputSettled out id made source graph s.db (o.db.refreshRows id, o.db)

/-- **Editing sources during a refresh does not lose it**: whatever is created, edited, disabled or
deleted meanwhile (but no source the job calls, before the report), the report of a worker that has
finished its calls is never a conflict. -/
theorem report_accepted {s : WithWorker} {w : Worker}
    (hs : (withWorker out fmt id claim).ReachableBy (calledKept id claim) s)
    (hw : s.worker = some w) (hfinished : w.finished = true)
    (hstage : stage? id claim s.api.db = some (some "sources")) :
    Accepted out fmt id claim s.api w := by
  obtain ⟨w', hw', h⟩ := attended_inductive.of_reachable hs hstage
  rw [hw] at hw'
  obtain rfl := Option.some.inj hw'
  have hresults : w.results.map RefreshSourceResultIn.sourceId = s.api.calls := by
    simp only [Worker.finished, Bool.and_eq_true, List.isEmpty_iff, Option.isNone_iff_eq_none]
      at hfinished
    rw [← h.results, hfinished.1, hfinished.2]
    simp
  have hnodup : (w.results.map RefreshSourceResultIn.sourceId).Nodup := by
    rw [hresults]
    exact h.nodup
  have hunsettled : ∀ r ∈ w.results, ∃ row ∈ s.api.db.refreshRows id,
      row.sourceId = some r.sourceId ∧ row.ran = true ∧ row.status = none := by
    intro r hr
    refine h.unsettled r.sourceId ?_
    rw [← hresults]
    exact List.mem_map_of_mem hr
  have hstaged : ∀ r ∈ w.results, r.status = .success →
      (readPart out s.api.staged (.source r.sourceId) r.bytes r.sha256).isSome = true := by
    intro r hr hsuccess
    obtain ⟨body, -, hread⟩ := h.readPart hr hsuccess
    rw [hread]
    rfl
  obtain ⟨⟨rows, db⟩, hrows⟩ := @storeRows_ok out id s.api.now _ _ hstaged
    (s.api.db.refreshRows id) s.api.db
  have hstore : storeResults out s.api.now s.api.db s.api.staged id w.results
      = .ok (db.putRows id rows) := by
    unfold storeResults
    dsimp only
    rw [if_neg, hrows]
    · rfl
    · rw [Bool.not_eq_true, List.any_eq_false]
      intro r hr
      obtain ⟨row, hrow, hid, hran, -⟩ := hunsettled r hr
      have hranSource : ranSource (s.api.db.refreshRows id) r.sourceId = true :=
        List.any_eq_true.mpr ⟨row, List.mem_filter.mpr ⟨hrow, by simp [hran, hid]⟩, by simp [hid]⟩
      simp [hranSource]
  obtain ⟨row, hrow, hrowStage⟩ := Option.map_eq_some_iff.mp hstage
  obtain ⟨hget, hrunning, hclaim⟩ := lockedRefresh_eq_some.mp hrow
  have hcases : ∀ combined new o,
      refreshSources out fmt s.api.now s.api.db s.api.staged id claim w.results combined new =
        some o →
      (s.api.db.inventories.get? row.inventoryId = none ∧ Failed fmt s.api.now s.api.db id row o) ∨
        Combined fmt s.api.now (db.putRows id rows) id row new o := by
    intro combined new o ho
    unfold refreshSources at ho
    rw [hrow] at ho
    dsimp only at ho
    rw [if_pos hrowStage, hstore] at ho
    dsimp only at ho
    split at ho
    · next hnone =>
      exact Or.inl ⟨Option.isNone_iff_eq_none.mp hnone,
        .of_end rfl RunStatus.noConfusion (fun _ => RefreshAnswer.noConfusion) ho⟩
    · exact Or.inr (combineSources_spec ho)
  refine ⟨hresults, ?_, ?_, ?_⟩
  · intro combined new hnone
    unfold refreshSources at hnone
    rw [hrow] at hnone
    dsimp only at hnone
    rw [if_pos hrowStage, hstore] at hnone
    dsimp only at hnone
    have hends : ∀ (d : SourcesDb) error,
        endRefresh fmt s.api.now d id row .failed error .gone ≠ none := by
      intro d error hend
      have hsome : (endRefresh fmt s.api.now d id row .failed error .gone).isSome = true :=
        endRefresh_isSome RunStatus.noConfusion
      rw [hend] at hsome
      exact absurd hsome (by simp)
    split at hnone
    · exact absurd hnone (hends _ _)
    · unfold combineSources at hnone
      split at hnone
      · exact Or.inl rfl
      · exact absurd hnone (hends _ _)
      · split at hnone
        · exact absurd hnone (by simp)
        · exact Or.inr ⟨_, row, _, hstore, rfl, hnone⟩
  · intro combined new o ho
    rcases hcases combined new o ho with ⟨-, hf⟩ | hc
    · exact ⟨hf.answer, hf.goesOn⟩
    · obtain ⟨hgoes, hanswer, -⟩ := hc.goesOn hrunning hclaim
      exact ⟨hanswer, hgoes⟩
  · intro combined new o row' ho hrow' hinventory source body graph warnings hsent hparse
    rw [hget] at hrow'
    obtain rfl := Option.some.inj hrow'
    rcases hcases combined new o ho with ⟨hnone, -⟩ | hc
    · rw [hnone] at hinventory
      exact absurd hinventory (by simp)
    · obtain ⟨-, -, houtputs, hsources⟩ := hc.goesOn hrunning hclaim
      obtain ⟨⟨r, hr, rfl, hsuccess, hbytes, hsha⟩, hstagedBody⟩ := h.staged source body hsent
      obtain ⟨made, hmade, hid, hran, hstatus⟩ := hunsettled r hr
      have hread : readPart out s.api.staged (.source r.sourceId) r.bytes r.sha256 = some body := by
        unfold readPart
        rw [hstagedBody, if_pos ⟨hbytes.symm, hsha.symm⟩]
      have hsettled := outputSettled_rows hrows h.distinct hmade hid hran hstatus
        (reported_of_mem hnodup hr) hsuccess hread hparse
      refine ⟨made, hmade, hid, ?_⟩
      have hrowsAfter : o.db.refreshRows id = rows := by
        rw [SourcesDb.refreshRows, hsources, ← SourcesDb.refreshRows, refreshRows_putRows]
      rw [hrowsAfter]
      exact ⟨by rw [houtputs]; exact hsettled.stored, by rw [houtputs]; exact hsettled.stale⟩

/-- The source is disabled while it runs and another one comes and goes; an answer is lost. -/
def disabledRun : List WorkerLabel :=
  [.fetch (.built fun _ => none),
    .api (.updateSource 1
      { inventoryId := 1, name := "cloud", plugin := "cloud", config := some "a",
        enabled := false }),
    .api (.createSource 2 { inventoryId := 1, name := "other", plugin := "cloud" }),
    .callEnded [1, 2] false, .chunk true, .api (.deleteSource 2), .chunk false]

def unserved : WithWorker := ⟨oneSource, none⟩

theorem unserved_init :
    (withWorker InventorySources.plainOutputs byteFormat 1 "claim").init unserved :=
  ⟨rfl, rfl⟩

def disabled : WithWorker :=
  ((withWorker InventorySources.plainOutputs byteFormat 1 "claim").run (calledKept 1 "claim")
    unserved disabledRun).get rfl

theorem report_accepted_disabled :
    Accepted InventorySources.plainOutputs byteFormat 1 "claim" disabled.api
      (disabled.worker.get rfl) :=
  report_accepted (.of_isSome unserved_init disabledRun rfl) (Option.some_get _).symm rfl rfl

/-- The source's config is edited while it runs. -/
def editedRun : List WorkerLabel :=
  [.fetch (.built fun _ => none),
    .api (.updateSource 1
      { inventoryId := 1, name := "cloud", plugin := "cloud", config := some "b" }),
    .callEnded [1, 2] false, .chunk false]

def edited : WithWorker :=
  ((withWorker InventorySources.plainOutputs byteFormat 1 "claim").run Lib.anyStep
    unserved editedRun).get rfl

/-- The output of a source that is still there, but edited, is not stored. -/
theorem edited_not_stored :
    ¬ ∀ (s : WithWorker) (w : Worker),
      (withWorker InventorySources.plainOutputs byteFormat 1 "claim").Reachable s →
      s.worker = some w → w.finished = true →
      stage? 1 "claim" s.api.db = some (some "sources") →
      ∀ combined new o, refreshSources InventorySources.plainOutputs byteFormat s.api.now s.api.db
          s.api.staged 1 "claim" w.results combined new = some o →
        (∀ detail, o.answer ≠ .conflict detail) ∧ GoesOn 1 "claim" o ∧
        ∀ source body, (source, body) ∈ w.sent → (s.api.db.sources.get? source).isSome = true →
          ∃ output, o.db.outputs.get? source = some output ∧ output.refreshId = some 1 := by
  intro h
  obtain ⟨-, -, hstored⟩ := h edited (edited.worker.get rfl)
    (.of_isSome unserved_init editedRun rfl)
    (Option.some_get _).symm rfl rfl (.ok noHosts) 1 _ rfl
  obtain ⟨output, houtput, -⟩ := hstored 1 [1, 2] (List.mem_singleton_self _) rfl
  exact Option.some_ne_none output (houtput.symm.trans rfl)

end RefreshReport

end AnsiDeck
