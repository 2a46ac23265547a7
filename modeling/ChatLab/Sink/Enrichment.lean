import ChatLab.Sink.AnalysisSink
import ChatLab.Storage.AnalysisScan

/-!
# Enrichment of stored analyses

Over every run of the sink, the base analysis of an event whose batch was
stored stays under its pointer, and later merges keep the fields that come
from the scan. Whether a segment finds it is decided by the drive alone: the
sink writes one fixed namespace and looks the record up under the drive.
Identifiers of consumed events are fresh, as `uuid.New` makes them.
-/

namespace ChatLab.Sink

open Foundation ChatLab.Storage

/-- The analysis is the event's record: the scan's fields are the event's, and
only summary, tags, scores and text content may have been enriched. -/
structure FileAnalyse.IsRecord (e : FileAnalyse) (a : Analysis) : Prop where
  id_eq : a.id = e.id
  entityId_eq : a.entityId = e.id
  nameSpace_eq : a.nameSpace = "file-room"
  atTime_eq : a.atTime = e.scannedAt
  payload_eq : ∃ content, a.payload = .file
    { filename := e.path, mimeType := e.rawMimeType, size := e.size, content := content }

def FileAnalyse.mainKey (e : FileAnalyse) : Key := buildKey "file-room" e.scannedAt e.id

theorem FileAnalyse.IsRecord.mainKey_eq {e : FileAnalyse} {a : Analysis} (h : e.IsRecord a) :
    a.mainKey = e.mainKey := by
  rw [Analysis.mainKey, FileAnalyse.mainKey, h.nameSpace_eq, h.atTime_eq, h.entityId_eq]

theorem FileAnalyse.IsRecord.persisted {e : FileAnalyse} {a : Analysis} (h : e.IsRecord a) :
    e.IsRecord a.persisted := by
  obtain ⟨content, hPayload⟩ := h.payload_eq
  refine ⟨h.id_eq, h.entityId_eq, h.nameSpace_eq, h.atTime_eq, content, ?_⟩
  rw [Analysis.persisted, hPayload]
  rfl

/-! ## Merging -/

theorem FileAnalyse.IsRecord.mergeMetric {e : FileAnalyse} {a : Analysis} (h : e.IsRecord a)
    (result : AnalysisMetric) : e.IsRecord (mergeMetric a result) := by
  obtain ⟨content, hPayload⟩ := h.payload_eq
  rw [Sink.mergeMetric]
  split
  · exact h
  · split
    · split
      · exact h
      · exact ⟨h.id_eq, h.entityId_eq, h.nameSpace_eq, h.atTime_eq, content, hPayload⟩
    · rename_i data _
      rw [hPayload]
      exact ⟨h.id_eq, h.entityId_eq, h.nameSpace_eq, h.atTime_eq, data.transcription, rfl⟩
    · exact ⟨h.id_eq, h.entityId_eq, h.nameSpace_eq, h.atTime_eq, content, hPayload⟩
    · exact h
    · exact h

theorem FileAnalyse.IsRecord.enrich {e : FileAnalyse} {a : Analysis} (h : e.IsRecord a)
    (segment : AnalysisSegment) (version : UUID) : e.IsRecord (enrich a segment version) := by
  have hMerged : e.IsRecord (segment.metrics.foldl Sink.mergeMetric a) := by
    induction segment.metrics generalizing a with
    | nil => exact h
    | cons result rest ih => exact ih (h.mergeMetric result)
  exact ⟨hMerged.id_eq, hMerged.entityId_eq, hMerged.nameSpace_eq, hMerged.atTime_eq,
    hMerged.payload_eq⟩

theorem mergeMetric_frame (a : Analysis) (result : AnalysisMetric) :
    (mergeMetric a result).entityId = a.entityId ∧
      (mergeMetric a result).nameSpace = a.nameSpace := by
  rw [mergeMetric]
  split
  · exact ⟨rfl, rfl⟩
  · split
    · split <;> exact ⟨rfl, rfl⟩
    · split <;> exact ⟨rfl, rfl⟩
    · exact ⟨rfl, rfl⟩
    · exact ⟨rfl, rfl⟩
    · exact ⟨rfl, rfl⟩

theorem enrich_frame (a : Analysis) (segment : AnalysisSegment) (version : UUID) :
    (enrich a segment version).entityId = a.entityId ∧
      (enrich a segment version).nameSpace = a.nameSpace := by
  have hMerged : (segment.metrics.foldl mergeMetric a).entityId = a.entityId ∧
      (segment.metrics.foldl mergeMetric a).nameSpace = a.nameSpace := by
    induction segment.metrics generalizing a with
    | nil => exact ⟨rfl, rfl⟩
    | cons result rest ih =>
      obtain ⟨hEntity, hName⟩ := ih (mergeMetric a result)
      obtain ⟨hEntity', hName'⟩ := mergeMetric_frame a result
      exact ⟨hEntity.trans hEntity', hName.trans hName'⟩
  exact hMerged

/-! ## Base analyses -/

def BatchItem.base (item : BatchItem) : Analysis :=
  { id := item.event.id, entityId := item.event.id, nameSpace := "file-room",
    atTime := item.event.scannedAt, summary := item.event.path,
    tags := [item.event.rawMimeType, item.event.sourceType], scores := .empty,
    payload := .file { filename := item.event.path, mimeType := item.event.rawMimeType,
                       size := item.event.size, content := "" },
    version := item.version }

theorem BatchItem.analysis_eq (item : BatchItem) : item.analysis = some item.base := rfl

theorem mapM_analysis (items : List BatchItem) :
    items.mapM BatchItem.analysis = some (items.map BatchItem.base) := by
  induction items with
  | nil => rfl
  | cons item items ih =>
    rw [List.mapM_cons, BatchItem.analysis_eq, ih]
    rfl

theorem BatchItem.isRecord_base (item : BatchItem) : item.event.IsRecord item.base :=
  ⟨rfl, rfl, rfl, rfl, "", rfl⟩

/-! ## Recorded events -/

def Recorded (db : DB) (e : FileAnalyse) : Prop :=
  db.get? (indexKey e.id) = some (.pointer e.mainKey) ∧
    ∃ a p, e.IsRecord a ∧ fromAnalysis a = some p ∧ db.get? e.mainKey = some (.analysis p)

theorem mainKey_ne_of_entityId {e : FileAnalyse} {a : Analysis} (h : a.entityId ≠ e.id) :
    a.mainKey ≠ e.mainKey := by
  intro hEq
  let b : Analysis :=
    { a with nameSpace := "file-room", atTime := e.scannedAt, entityId := e.id }
  have hKeys : a.mainKey = b.mainKey := hEq
  exact h (mainKey_eq_iff.mp hKeys).2.2

theorem mainKey_ne_index (e : FileAnalyse) (id : UUID) : e.mainKey ≠ indexKey id := by
  rw [FileAnalyse.mainKey, buildKey_eq]
  exact analysis_ne_index _ _

theorem Recorded.insert {db : DB} {e : FileAnalyse} (h : Recorded db e) {a : Analysis}
    {p : AnalysisPb} (hp : fromAnalysis a = some p) (ha : a.entityId = e.id → e.IsRecord a)
    {w : Key × Value} (hw : w ∈ analysisWrites a p) : Recorded (db.insert w.1 w.2) e := by
  obtain ⟨hPointer, b, q, hb, hq, hRecord⟩ := h
  obtain rfl | hw := List.mem_cons.mp hw
  · have hOther : indexKey e.id ≠ a.mainKey := (mainKey_ne_indexKey a e.id).symm
    refine ⟨(db.get?_insert_of_ne _ hOther).trans hPointer, ?_⟩
    by_cases hSame : a.entityId = e.id
    · have hMain := (ha hSame).mainKey_eq
      exact ⟨a, p, ha hSame, hp, by rw [hMain, db.get?_insert_self]⟩
    · have hNe := (mainKey_ne_of_entityId hSame).symm
      exact ⟨b, q, hb, hq, (db.get?_insert_of_ne _ hNe).trans hRecord⟩
  · obtain rfl := List.mem_singleton.mp hw
    have hMain : e.mainKey ≠ indexKey a.entityId := mainKey_ne_index e a.entityId
    refine ⟨?_, b, q, hb, hq, (db.get?_insert_of_ne _ hMain).trans hRecord⟩
    by_cases hSame : a.entityId = e.id
    · rw [hSame, (ha hSame).mainKey_eq, db.get?_insert_self]
    · have hNe : indexKey e.id ≠ indexKey a.entityId :=
        fun hEq => hSame (indexKey_injective hEq).symm
      exact (db.get?_insert_of_ne _ hNe).trans hPointer

theorem Recorded.insertAll {db : DB} {e : FileAnalyse} (h : Recorded db e)
    {analyses : List Analysis} {ws : List (Key × Value)} (hws : WritesOf analyses ws)
    (ha : ∀ a ∈ analyses, a.entityId = e.id → e.IsRecord a) : Recorded (db.insertAll ws) e := by
  induction ws generalizing db with
  | nil => exact h
  | cons w ws ih =>
    obtain ⟨a, haMem, p, hp, hw⟩ := hws w List.mem_cons_self
    exact ih (h.insert hp (ha a haMem) hw) fun u hu => hws u (List.mem_cons_of_mem _ hu)

theorem recorded_analysisWrites (db : DB) (item : BatchItem) {p : AnalysisPb}
    (hp : fromAnalysis item.base = some p) :
    Recorded (db.insertAll (analysisWrites item.base p)) item.event := by
  have hMain : item.base.mainKey = item.event.mainKey := item.isRecord_base.mainKey_eq
  have hNe := mainKey_ne_index item.event item.event.id
  refine ⟨?_, item.base, p, item.isRecord_base, hp, ?_⟩
  · rw [analysisWrites, OrderedMap.insertAll_cons, OrderedMap.insertAll_cons, hMain]
    exact OrderedMap.get?_insert_self _ _ _
  · rw [analysisWrites, OrderedMap.insertAll_cons, OrderedMap.insertAll_cons, hMain]
    exact (OrderedMap.get?_insert_of_ne _ _ hNe).trans (OrderedMap.get?_insert_self _ _ _)

theorem recorded_prepareBatch {marshals : AnalysisPb → Bool} {items : List BatchItem}
    {sets : List (Key × Value)}
    (hPrepare : prepareBatch marshals (items.map BatchItem.base) = (sets, none))
    (hFresh : (items.map fun item => item.event.id).Nodup) (db : DB) :
    ∀ item ∈ items, Recorded (db.insertAll sets) item.event := by
  induction items generalizing sets db with
  | nil => simp
  | cons head rest ih =>
    rw [List.map_cons, prepareBatch] at hPrepare
    split at hPrepare
    · simp at hPrepare
    · rename_i p hp
      split at hPrepare
      · obtain ⟨rfl, hRest⟩ := Prod.mk.inj hPrepare
        obtain ⟨hHead, hTail⟩ := List.nodup_cons.mp hFresh
        have hWrites := writesOf_prepareBatch marshals (rest.map BatchItem.base)
        rw [OrderedMap.insertAll_append]
        refine List.forall_mem_cons.mpr ⟨?_, ih (Prod.ext rfl hRest) hTail _⟩
        refine (recorded_analysisWrites db head hp).insertAll hWrites ?_
        intro a ha hSame
        obtain ⟨item, hItem, rfl⟩ := List.mem_map.mp ha
        exact absurd (List.mem_map.mpr ⟨item, hItem, hSame⟩) hHead
      · simp at hPrepare

theorem indexKey_ne_of_foreignKey {key : Key} (hKey : foreignKey key = true) (id : UUID) :
    indexKey id ≠ key := by
  rintro rfl
  have hStem : indexStem.isPrefixOf (indexKey id) = true :=
    List.isPrefixOf_iff_prefix.mpr (List.prefix_append _ _)
  simp [foreignKey, hStem] at hKey

theorem Recorded.foreignWrite {db : DB} {e : FileAnalyse} (h : Recorded db e) {key : Key}
    (hKey : foreignKey key = true) (v : Option Value) : Recorded (foreignWrite db key v) e := by
  obtain ⟨hPointer, a, p, ha, hp, hRecord⟩ := h
  have hIndex : indexKey e.id ≠ key := indexKey_ne_of_foreignKey hKey e.id
  have hMain : e.mainKey ≠ key := by
    rintro rfl
    simp [foreignKey, FileAnalyse.mainKey, isPrefixOf_buildKey] at hKey
  exact ⟨(get?_foreignWrite hIndex).trans hPointer, a, p, ha, hp,
    (get?_foreignWrite hMain).trans hRecord⟩

theorem foreignKey_pendingKey (t : FileTask) : foreignKey (pendingKey t) = true := by
  have hAnalysis : analysisStem.isPrefixOf (pendingKey t) = false := rfl
  have hIndex : indexStem.isPrefixOf (pendingKey t) = false := rfl
  rw [foreignKey, hAnalysis, hIndex]
  rfl

theorem foreignKey_processingKey (t : FileTask) : foreignKey (processingKey t) = true := by
  have hAnalysis : analysisStem.isPrefixOf (processingKey t) = false := rfl
  have hIndex : indexStem.isPrefixOf (processingKey t) = false := rfl
  rw [foreignKey, hAnalysis, hIndex]
  rfl

/-! ## Pointers -/

def PointersKeyed (db : DB) : Prop :=
  ∀ id v, db.get? (indexKey id) = some v → ∃ a : Analysis, v = .pointer a.mainKey ∧ a.entityId = id

theorem PointersKeyed.insertAll {db : DB} (h : PointersKeyed db) {analyses : List Analysis}
    {ws : List (Key × Value)} (hws : WritesOf analyses ws) : PointersKeyed (db.insertAll ws) := by
  induction ws generalizing db with
  | nil => exact h
  | cons w ws ih =>
    refine ih ?_ fun u hu => hws u (List.mem_cons_of_mem _ hu)
    obtain ⟨a, _, p, _, hw⟩ := hws w List.mem_cons_self
    intro id v hv
    rw [db.get?_insert] at hv
    split at hv
    · rename_i hKey
      obtain rfl | hw := List.mem_cons.mp hw
      · exact absurd hKey.symm (mainKey_ne_indexKey a id)
      · obtain rfl := List.mem_singleton.mp hw
        exact ⟨a, (Option.some.inj hv).symm, (indexKey_injective hKey).symm⟩
    · exact h id v hv

theorem PointersKeyed.foreignWrite {db : DB} (h : PointersKeyed db) {key : Key}
    (hKey : foreignKey key = true) (v : Option Value) : PointersKeyed (foreignWrite db key v) := by
  intro id value hValue
  rw [get?_foreignWrite (indexKey_ne_of_foreignKey hKey id)] at hValue
  exact h id value hValue

/-- A read by entity answers with a record of that entity. -/
theorem fetch_record {db : DB} (hKeyed : AnalysesKeyed db) (hPointers : PointersKeyed db)
    {nameSpace : String} {id : UUID} {a : Analysis}
    (h : fetchFullByEntityId db nameSpace id = .ok a) :
    ∃ c, ∃ entry ∈ db.entries, db.get? (indexKey id) = some (.pointer entry.1) ∧
      IsRecord c entry ∧ c.entityId = id ∧ a = c.persisted := by
  rw [fetchFullByEntityId] at h
  split at h
  · rename_i mainKey hPointer
    obtain ⟨b, hb, rfl⟩ := hPointers id _ hPointer
    obtain rfl := Value.pointer.inj hb
    split at h
    · cases h
    · rename_i v hv
      have hEntry := db.get?_eq_some_iff.mp hv
      obtain ⟨c, hRecord⟩ := hKeyed _ hEntry (isPrefixOf_buildKey _ _ _)
      have hMain : b.mainKey = c.mainKey := by
        obtain ⟨p, _, hEq⟩ := hRecord
        exact congrArg Prod.fst hEq
      rw [hRecord.decode] at h
      split at h
      · cases h
      · rename_i res hRes
        obtain rfl := Except.ok.inj hRes
        split at h
        · cases h
          exact ⟨c, _, hEntry, hPointer, hRecord, (mainKey_eq_iff.mp hMain).2.2.symm, rfl⟩
        · cases h
  · cases h
  · cases h

theorem fetch_entityId {db : DB} (hKeyed : AnalysesKeyed db) (hPointers : PointersKeyed db)
    {nameSpace : String} {id : UUID} {a : Analysis}
    (h : fetchFullByEntityId db nameSpace id = .ok a) : a.entityId = id := by
  obtain ⟨c, _, _, _, _, hEntity, rfl⟩ := fetch_record hKeyed hPointers h
  exact hEntity

theorem fetchForEnrichment_ok {db : DB} {segment : AnalysisSegment} {a : Analysis}
    (h : fetchForEnrichment db segment = .ok a) :
    ∃ e, UUID.parse segment.fileId.toList = some e ∧
      fetchFullByEntityId db segment.driveId e = .ok a := by
  rw [fetchForEnrichment] at h
  split at h
  · cases h
  · rename_i e hParse
    split at h
    · cases h
    · rename_i b hFetch
      obtain rfl := Except.ok.inj h
      exact ⟨e, hParse, hFetch⟩

/-! ## Runs of the sink -/

structure SinkState where
  repo : Repository
  consumed : List FileAnalyse
  stored : List FileAnalyse
  pending : List Analysis
deriving DecidableEq

/-- A segment is fetched and saved in two steps, with anything between them. -/
inductive SinkAction
  | batch (items : List BatchItem) (fault : Fault)
  | fetch (segment : AnalysisSegment) (version : UUID)
  | save (i : Nat) (fault : Fault)
  | foreign (key : Key) (value : Option Value)
deriving DecidableEq

section Runs

variable (parseMediaType : String → Option String) (marshalsTask : FileTaskPb → Bool)
  (marshals : AnalysisPb → Bool) (toLower : String → String)

def ids (events : List FileAnalyse) : List UUID := events.map FileAnalyse.id

def sinkStep (s : SinkState) : SinkAction → Option SinkState
  | .batch items fault =>
    let events := items.map BatchItem.event
    if (ids events).Nodup ∧ ∀ id ∈ ids events, id ∉ ids s.consumed then
      let (repo, result) :=
        processAndStore parseMediaType marshalsTask marshals toLower s.repo items fault
      some { s with
        repo := repo,
        consumed := s.consumed ++ events,
        stored := match result with
          | .ok () => s.stored ++ events
          | .error _ => s.stored }
    else none
  | .fetch segment version =>
    match fetchForEnrichment s.repo.db segment with
    | .error _ => some s
    | .ok analysis => some { s with pending := s.pending ++ [enrich analysis segment version] }
  | .save i fault =>
    match s.pending[i]? with
    | none => none
    | some analysis =>
      some { s with repo := (saveEnriched marshals toLower s.repo analysis fault).1,
                    pending := s.pending.eraseIdx i }
  | .foreign key value =>
    if foreignKey key then
      some { s with repo := { s.repo with db := foreignWrite s.repo.db key value } }
    else none

def sinkMachine : Machine SinkState SinkAction where
  start := { repo := { db := .empty, documents := .empty }, consumed := [], stored := [],
             pending := [] }
  step := sinkStep parseMediaType marshalsTask marshals toLower

end Runs

structure StoreSound (db : DB) (consumed stored : List FileAnalyse) : Prop where
  keyed : AnalysesKeyed db
  pointers : PointersKeyed db
  known : ∀ id, indexKey id ∈ db.keys → id ∈ ids consumed
  recorded : ∀ e ∈ stored, Recorded db e

theorem StoreSound.foreignWrite {db : DB} {consumed stored : List FileAnalyse}
    (h : StoreSound db consumed stored) {key : Key} (hKey : foreignKey key = true)
    (v : Option Value) : StoreSound (foreignWrite db key v) consumed stored where
  keyed := h.keyed.foreignWrite hKey v
  pointers := h.pointers.foreignWrite hKey v
  known := by
    intro id hId
    apply h.known
    obtain ⟨value, hValue⟩ := (OrderedMap.mem_keys_iff _).mp hId
    rw [get?_foreignWrite (indexKey_ne_of_foreignKey hKey id)] at hValue
    exact db.mem_keys_iff.mpr ⟨value, hValue⟩
  recorded := fun e he => (h.recorded e he).foreignWrite hKey v

theorem StoreSound.insertAll {db : DB} {consumed stored : List FileAnalyse}
    (h : StoreSound db consumed stored) {analyses : List Analysis} {ws : List (Key × Value)}
    (hws : WritesOf analyses ws) (hKnown : ∀ a ∈ analyses, a.entityId ∈ ids consumed)
    (hRecords : ∀ a ∈ analyses, ∀ e ∈ stored, a.entityId = e.id → e.IsRecord a) :
    StoreSound (db.insertAll ws) consumed stored where
  keyed := h.keyed.insertAll hws
  pointers := h.pointers.insertAll hws
  known := by
    intro id hId
    obtain hId | hId := (db.mem_keys_insertAll ws _).mp hId
    · exact h.known id hId
    · obtain ⟨w, hw, hKey⟩ := List.mem_map.mp hId
      obtain ⟨a, ha, p, _, hWrite⟩ := hws w hw
      obtain rfl | hWrite := List.mem_cons.mp hWrite
      · exact absurd hKey (mainKey_ne_indexKey a id)
      · obtain rfl := List.mem_singleton.mp hWrite
        rw [← indexKey_injective hKey]
        exact hKnown a ha
  recorded := fun e he => (h.recorded e he).insertAll hws fun a ha => hRecords a ha e he

theorem StoreSound.consume {db : DB} {consumed stored : List FileAnalyse}
    (h : StoreSound db consumed stored) (events : List FileAnalyse) :
    StoreSound db (consumed ++ events) stored where
  keyed := h.keyed
  pointers := h.pointers
  known := by
    intro id hId
    rw [ids, List.map_append]
    exact List.mem_append_left _ (h.known id hId)
  recorded := h.recorded

theorem StoreSound.enqueueTasks {db : DB} {consumed stored : List FileAnalyse}
    (h : StoreSound db consumed stored) (parseMediaType : String → Option String)
    (marshalsTask : FileTaskPb → Bool) (items : List BatchItem) :
    StoreSound (enqueueTasks parseMediaType marshalsTask db items) consumed stored := by
  rw [Sink.enqueueTasks]
  induction items generalizing db with
  | nil => exact h
  | cons item items ih =>
    rw [List.foldl_cons]
    apply ih
    split
    · rw [enqueueTask]
      split
      · exact h.foreignWrite (foreignKey_pendingKey item.task) (some (.task (toPbFileTask item.task)))
      · exact h
    · exact h

structure SinkState.Sound (s : SinkState) : Prop where
  store : StoreSound s.repo.db s.consumed s.stored
  stored : ∀ e ∈ s.stored, e ∈ s.consumed
  pending : ∀ m ∈ s.pending, m.entityId ∈ ids s.consumed ∧
    ∀ e ∈ s.stored, m.entityId = e.id → e.IsRecord m

/-! ## Fetching a recorded event -/

theorem Recorded.fetch {db : DB} {e : FileAnalyse} (h : Recorded db e) :
    ∃ a, e.IsRecord a ∧ ∀ nameSpace, fetchFullByEntityId db nameSpace e.id =
      if nameSpace = "file-room" then .ok a else .error (.securityViolation e.id nameSpace) := by
  obtain ⟨hPointer, a, p, ha, hp, hRecord⟩ := h
  refine ⟨a.persisted, ha.persisted, ?_⟩
  intro nameSpace
  have hName : a.persisted.nameSpace = "file-room" := ha.nameSpace_eq
  simp only [fetchFullByEntityId, hPointer, hRecord, decodeAnalysis, toAnalysis_of_fromAnalysis hp,
    hName, eq_comm]

theorem SinkState.Sound.fetched {s : SinkState} (h : s.Sound) {segment : AnalysisSegment}
    {a : Analysis} (hFetch : fetchForEnrichment s.repo.db segment = .ok a) :
    a.entityId ∈ ids s.consumed ∧ ∀ e ∈ s.stored, a.entityId = e.id → e.IsRecord a := by
  obtain ⟨id, _, hb⟩ := fetchForEnrichment_ok hFetch
  have hEntity := fetch_entityId h.store.keyed h.store.pointers hb
  constructor
  · rw [hEntity]
    apply h.store.known
    by_contra hNone
    rw [fetchFullByEntityId, s.repo.db.get?_eq_none_iff.mpr hNone] at hb
    cases hb
  · intro e he hSame
    obtain ⟨c, hc, hAnswer⟩ := (h.store.recorded e he).fetch
    rw [← hEntity, hSame, hAnswer] at hb
    split at hb
    · rwa [← Except.ok.inj hb]
    · cases hb

/-! ## Steps -/

section Steps

variable (parseMediaType : String → Option String) (marshalsTask : FileTaskPb → Bool)
  (marshals : AnalysisPb → Bool) (toLower : String → String)

theorem processAndStore_db (repo : Repository) {items : List BatchItem} (fault : Fault)
    (hFresh : (items.map fun item => item.event.id).Nodup) :
    ∃ ws, WritesOf (items.map BatchItem.base) ws ∧
      (processAndStore parseMediaType marshalsTask marshals toLower repo items fault).1.db =
        (enqueueTasks parseMediaType marshalsTask repo.db items).insertAll ws ∧
      ((processAndStore parseMediaType marshalsTask marshals toLower repo items fault).2 = .ok () →
        ∀ item ∈ items,
          Recorded ((enqueueTasks parseMediaType marshalsTask repo.db items).insertAll ws)
            item.event) := by
  simp only [processAndStore, mapM_analysis]
  split
  · rename_i hEmpty
    obtain rfl := List.map_eq_nil_iff.mp hEmpty
    exact ⟨[], (fun w hw => by cases hw), rfl, fun _ => by simp⟩
  · obtain ⟨ws, hws, hdb⟩ := storeBatch_db marshals toLower
      { repo with db := enqueueTasks parseMediaType marshalsTask repo.db items }
      (items.map BatchItem.base) fault
    refine ⟨ws, hws, hdb, ?_⟩
    intro hOk
    obtain ⟨sets, hPrepare, hSets⟩ := storeBatch_ok marshals toLower hOk
    rw [← hdb, hSets]
    exact recorded_prepareBatch hPrepare hFresh _

theorem saveEnriched_db (repo : Repository) (a : Analysis) (fault : Fault) :
    ∃ ws, WritesOf [a] ws ∧
      (saveEnriched marshals toLower repo a fault).1.db = repo.db.insertAll ws := by
  obtain ⟨ws, hws, hdb⟩ := store_db marshals toLower repo a fault
  refine ⟨ws, hws, ?_⟩
  rw [← hdb, saveEnriched]
  split
  · rename_i hStore
    rw [hStore]
  · rename_i hStore
    rw [hStore]

variable {parseMediaType marshalsTask marshals toLower}

theorem SinkState.Sound.processAndStore {s : SinkState} (h : s.Sound) {items : List BatchItem}
    (fault : Fault) (hNodup : (ids (items.map BatchItem.event)).Nodup)
    (hFresh : ∀ id ∈ ids (items.map BatchItem.event), id ∉ ids s.consumed)
    {result : Repository × Except AnalysisError Unit}
    (hResult : Sink.processAndStore parseMediaType marshalsTask marshals toLower s.repo items
      fault = result) :
    StoreSound result.1.db (s.consumed ++ items.map BatchItem.event) s.stored ∧
      (result.2 = .ok () → ∀ e ∈ items.map BatchItem.event, Recorded result.1.db e) := by
  have hIds : ids (items.map BatchItem.event) = items.map fun item => item.event.id := by
    rw [ids, List.map_map]
    rfl
  obtain ⟨ws, hws, hdb, hOk⟩ := processAndStore_db parseMediaType marshalsTask marshals toLower
    s.repo fault (hIds ▸ hNodup)
  rw [hResult] at hdb hOk
  have hBase : ∀ a ∈ items.map BatchItem.base, a.entityId ∈ ids (items.map BatchItem.event) := by
    intro a ha
    obtain ⟨item, hItem, rfl⟩ := List.mem_map.mp ha
    rw [hIds]
    exact List.mem_map_of_mem hItem
  have hQueued := (h.store.consume (items.map BatchItem.event)).enqueueTasks parseMediaType
    marshalsTask items
  constructor
  · rw [hdb]
    refine hQueued.insertAll hws ?_ ?_
    · intro a ha
      rw [ids, List.map_append]
      exact List.mem_append_right _ (hBase a ha)
    · intro a ha e he hSame
      have hOld : a.entityId ∈ ids s.consumed := hSame ▸ List.mem_map_of_mem (h.stored e he)
      exact absurd hOld (hFresh _ (hBase a ha))
  · intro hSuccess e he
    obtain ⟨item, hItem, rfl⟩ := List.mem_map.mp he
    rw [hdb]
    exact hOk hSuccess item hItem

theorem SinkState.Sound.batch {s t : SinkState} (h : s.Sound) {items : List BatchItem}
    {fault : Fault}
    (hStep : sinkStep parseMediaType marshalsTask marshals toLower s (.batch items fault) = some t) :
    t.Sound := by
  simp only [sinkStep] at hStep
  split at hStep
  · rename_i hGuard
    obtain ⟨hNodup, hFresh⟩ := hGuard
    obtain ⟨hStore, hOk⟩ := h.processAndStore fault hNodup hFresh rfl
    obtain rfl := Option.some.inj hStep
    have hPending : ∀ m ∈ s.pending, m.entityId ∈ ids (s.consumed ++ items.map BatchItem.event) := by
      intro m hm
      rw [ids, List.map_append]
      exact List.mem_append_left _ (h.pending m hm).1
    cases hResult : (Sink.processAndStore parseMediaType marshalsTask marshals toLower s.repo items
        fault).2 with
    | error e =>
      refine ⟨?_, ?_, ?_⟩
      · simpa [hResult] using hStore
      · intro e he
        exact List.mem_append_left _ (h.stored e (by simpa [hResult] using he))
      · intro m hm
        exact ⟨hPending m hm, by simpa [hResult] using (h.pending m hm).2⟩
    | ok =>
      refine ⟨⟨hStore.keyed, hStore.pointers, hStore.known, ?_⟩, ?_, ?_⟩
      · intro e he
        obtain he | he := List.mem_append.mp he
        · exact hStore.recorded e he
        · exact hOk hResult e he
      · intro e he
        obtain he | he := List.mem_append.mp he
        · exact List.mem_append_left _ (h.stored e he)
        · exact List.mem_append_right _ he
      · intro m hm
        refine ⟨hPending m hm, ?_⟩
        intro e he hSame
        obtain he | he := List.mem_append.mp he
        · exact (h.pending m hm).2 e he hSame
        · exact absurd (hSame ▸ (h.pending m hm).1) (hFresh e.id (List.mem_map_of_mem he))
  · cases hStep

theorem sinkStep_sound {s t : SinkState} {action : SinkAction} (h : s.Sound)
    (hStep : sinkStep parseMediaType marshalsTask marshals toLower s action = some t) :
    t.Sound := by
  cases action with
  | batch items fault => exact h.batch hStep
  | fetch segment version =>
    simp only [sinkStep] at hStep
    split at hStep
    · cases hStep
      exact h
    · rename_i a ha
      obtain ⟨hKnown, hRecords⟩ := h.fetched ha
      cases hStep
      refine ⟨h.store, h.stored, ?_⟩
      refine Bag.forall_mem_concat h.pending ?_
      rw [(enrich_frame a segment version).1]
      exact ⟨hKnown, fun e he hSame => (hRecords e he hSame).enrich segment version⟩
  | save i fault =>
    simp only [sinkStep] at hStep
    split at hStep
    · cases hStep
    · rename_i m hm
      obtain ⟨hKnown, hRecords⟩ := h.pending m (List.mem_of_getElem? hm)
      obtain ⟨ws, hws, hSaved⟩ := saveEnriched_db marshals toLower s.repo m fault
      cases hStep
      refine ⟨?_, h.stored, fun m' hm' => h.pending m' (List.mem_of_mem_eraseIdx hm')⟩
      rw [hSaved]
      refine h.store.insertAll hws ?_ ?_
      · simpa using hKnown
      · simpa using hRecords
  | foreign key value =>
    simp only [sinkStep] at hStep
    split at hStep
    · cases hStep
      exact ⟨h.store.foreignWrite ‹_› value, h.stored, h.pending⟩
    · cases hStep

theorem sound_of_reachable {s : SinkState}
    (h : (sinkMachine parseMediaType marshalsTask marshals toLower).Reachable s) : s.Sound := by
  refine Machine.Reachable.invariant (I := SinkState.Sound) ⟨⟨?_, ?_, ?_, ?_⟩, ?_, ?_⟩
    (fun _ _ _ hs hStep => sinkStep_sound hs hStep) h
  · intro e he
    cases he
  · intro id v hv
    cases hv
  · intro id hId
    cases hId
  · intro e he
    cases he
  · intro e he
    cases he
  · intro m hm
    cases hm

end Steps

/-! ## Which events are enriched -/

section Enriched

variable (parseMediaType : String → Option String) (marshalsTask : FileTaskPb → Bool)
  (marshals : AnalysisPb → Bool) (toLower : String → String)

/-- Every segment that carries the event's identifier and drive finds the
event's record, and is merged into it and stored. -/
def SinkState.Enriches (s : SinkState) (e : FileAnalyse) : Prop :=
  ∀ segment : AnalysisSegment, segment.fileId = e.id.text → segment.driveId = e.driveId →
    ∃ a, fetchFullByEntityId s.repo.db segment.driveId e.id = .ok a ∧ e.IsRecord a ∧
      ∀ version fault, handleAnalysisSegment marshals toLower s.repo segment version fault =
        saveEnriched marshals toLower s.repo (enrich a segment version) fault

variable {parseMediaType marshalsTask marshals toLower}

/-- In every run of the sink, the segments of a stored event are enriched
exactly when the event's drive is the fixed namespace of the records. -/
theorem enriches_iff {s : SinkState}
    (h : (sinkMachine parseMediaType marshalsTask marshals toLower).Reachable s)
    {e : FileAnalyse} (he : e ∈ s.stored) :
    s.Enriches marshals toLower e ↔ e.driveId = "file-room" := by
  obtain ⟨a, ha, hFetch⟩ := ((sound_of_reachable h).store.recorded e he).fetch
  constructor
  · intro hEnriches
    obtain ⟨b, hAnswer, _⟩ :=
      hEnriches { driveId := e.driveId, fileId := e.id.text, metrics := [] } rfl rfl
    rw [hFetch] at hAnswer
    split at hAnswer
    · assumption
    · cases hAnswer
  · intro hDrive segment hFile hSegment
    have hAnswer : fetchFullByEntityId s.repo.db segment.driveId e.id = .ok a := by
      rw [hFetch, hSegment, hDrive, if_pos rfl]
    refine ⟨a, hAnswer, ha, ?_⟩
    intro version fault
    simp only [handleAnalysisSegment, fetchForEnrichment, hFile, UUID.parse_text, hAnswer]

end Enriched

def sampleEvent (driveId : String) : FileAnalyse :=
  { id := UUID.nil, path := "a.txt", driveId := driveId, size := 1, rawMimeType := "text/plain",
    effectiveMimeType := .unknown, scannedAt := 5, sourceType := "local" }

def sampleRun (driveId : String) : List SinkAction :=
  [.batch [{ event := sampleEvent driveId, version := UUID.nil, now := 6, enqueues := true }] .none]

abbrev sampleMachine : Machine SinkState SinkAction :=
  sinkMachine some (fun _ => true) (fun _ => true) id

def sampleState (driveId : String) : SinkState :=
  (sampleMachine.exec sampleMachine.start (sampleRun driveId)).getD sampleMachine.start

theorem sampleState_reachable (driveId : String) :
    sampleMachine.Reachable (sampleState driveId) :=
  Machine.reachable_after (sampleRun driveId)

theorem stored_not_enriched :
    ¬ ∀ s : SinkState, sampleMachine.Reachable s → ∀ e ∈ s.stored,
      s.Enriches (fun _ => true) id e := by
  intro hAlways
  have hReachable := sampleState_reachable "drive-1"
  have hStored : sampleEvent "drive-1" ∈ (sampleState "drive-1").stored := by decide +kernel
  have hFetch : fetchFullByEntityId (sampleState "drive-1").repo.db "drive-1" UUID.nil =
      .error (.securityViolation UUID.nil "drive-1") := by decide +kernel
  obtain ⟨a, hAnswer, _⟩ := hAlways _ hReachable _ hStored
    { driveId := "drive-1", fileId := UUID.nil.text, metrics := [] } rfl rfl
  have hBoth := hFetch.symm.trans hAnswer
  cases hBoth

theorem enriches_fileRoom :
    (sampleState "file-room").Enriches (fun _ => true) id (sampleEvent "file-room") := by
  have hReachable := sampleState_reachable "file-room"
  have hStored : sampleEvent "file-room" ∈ (sampleState "file-room").stored := by decide +kernel
  exact (enriches_iff hReachable hStored).mpr rfl

end ChatLab.Sink
