import ChatLab.Sink.LostUpdate

/-!
# What a segment changes

A result of a segment adds tags, sets a score, sets the summary or sets the
text content of the file, and nothing else. Merged one after the other, the
tags pile up and of the other values the last one counts. The record is
written back under the key of the time and the namespace that were read, so
it replaces the one it came from.
-/

namespace ChatLab.Sink

open Foundation Foundation.Log ChatLab.Storage

/-! ## What one result contributes -/

namespace AnalysisMetric

variable (m : AnalysisMetric)

/-- The answer of the specialist, unless it is missing or an error is reported. -/
def value : Option OneOf :=
  match m.specialistErr with
  | some _ => none
  | none => m.resp.bind Response.oneOf

def newTags : List String :=
  match m.value, m.id with
  | some (.score data), some _ => if data.label = "" then [] else [data.label]
  | some (.document data), _ => if data.author = "" then [] else ["author:" ++ data.author]
  | _, _ => []

def newScore : Option (Metric × Float64) :=
  match m.value, m.id with
  | some (.score data), some id => some (id, data.score)
  | _, _ => none

def newSummary : Option String :=
  match m.value with
  | some (.document data) => if data.title = "" then none else some data.title
  | _ => none

def newContent : Option String :=
  match m.value with
  | some (.audio data) => some data.transcription
  | _ => none

end AnalysisMetric

/-- A file analysis with the results of a list in it. -/
def mergedRecord (a : Analysis) (details : FileDetails) (metrics : List AnalysisMetric) :
    Analysis :=
  { a with
    summary := latest AnalysisMetric.newSummary metrics a.summary
    tags := a.tags ++ metrics.flatMap AnalysisMetric.newTags
    scores := a.scores.insertAll (metrics.filterMap AnalysisMetric.newScore)
    payload := .file { details with
      content := latest AnalysisMetric.newContent metrics details.content } }

theorem mergeMetric_file {a : Analysis} {details : FileDetails} (h : a.payload = .file details)
    (m : AnalysisMetric) :
    mergeMetric a m =
      { a with
        summary := m.newSummary.getD a.summary
        tags := a.tags ++ m.newTags
        scores := a.scores.insertAll m.newScore.toList
        payload := .file { details with content := m.newContent.getD details.content } } := by
  obtain ⟨_, _, _, _, _, _, _, _, _⟩ := a
  obtain ⟨id, resp, err⟩ := m
  cases h
  cases err with
  | some e => simp [mergeMetric, AnalysisMetric.newTags, AnalysisMetric.newScore,
      AnalysisMetric.newSummary, AnalysisMetric.newContent, AnalysisMetric.value]
  | none =>
    simp only [mergeMetric, AnalysisMetric.newTags, AnalysisMetric.newScore,
      AnalysisMetric.newSummary, AnalysisMetric.newContent, AnalysisMetric.value]
    cases resp.bind Response.oneOf with
    | none => simp
    | some answer =>
      cases answer with
      | other => simp
      | audio data => simp
      | document data =>
        by_cases hTitle : data.title = "" <;> by_cases hAuthor : data.author = "" <;>
          simp [hTitle, hAuthor]
      | score data =>
        cases id with
        | none => simp
        | some id => by_cases hLabel : data.label = "" <;> simp [hLabel]

theorem mergedRecord_cons {a : Analysis} {details : FileDetails} (h : a.payload = .file details)
    (m : AnalysisMetric) (metrics : List AnalysisMetric) :
    mergedRecord a details (m :: metrics) =
      mergedRecord (mergeMetric a m) { details with content := m.newContent.getD details.content }
        metrics := by
  rw [mergedRecord, mergedRecord, mergeMetric_file h, latest_cons, latest_cons,
    filterMap_cons_toList, OrderedMap.insertAll_append, List.flatMap_cons, List.append_assoc]

theorem foldl_mergeMetric {a : Analysis} {details : FileDetails} (h : a.payload = .file details)
    (metrics : List AnalysisMetric) :
    metrics.foldl mergeMetric a = mergedRecord a details metrics := by
  induction metrics generalizing a details with
  | nil =>
    obtain ⟨_, _, _, _, _, _, _, _, _⟩ := a
    cases h
    simp [mergedRecord, latest]
  | cons m metrics ih =>
    rw [List.foldl_cons, mergedRecord_cons h]
    apply ih
    rw [mergeMetric_file h]

theorem enrich_file {a : Analysis} {details : FileDetails} (h : a.payload = .file details)
    (segment : AnalysisSegment) (version : UUID) :
    enrich a segment version =
      { mergedRecord a details segment.metrics with version := version } := by
  rw [enrich, foldl_mergeMetric h]

theorem mergeMetric_of_value_none (a : Analysis) {m : AnalysisMetric} (h : m.value = none) :
    mergeMetric a m = a := by
  rw [AnalysisMetric.value] at h
  rw [mergeMetric]
  split
  · rfl
  · rename_i hErr
    rw [hErr] at h
    simp only at h
    rw [h]

theorem enrich_filter (a : Analysis) (segment : AnalysisSegment) (version : UUID) :
    enrich a { segment with metrics := segment.metrics.filter fun m => m.value.isSome } version =
      enrich a segment version := by
  have hSkip : (fun (b : Analysis) (m : AnalysisMetric) =>
      if m.value.isSome = true then mergeMetric b m else b) = mergeMetric := by
    funext b m
    split
    · rfl
    · rename_i hNone
      exact (mergeMetric_of_value_none b (Option.not_isSome_iff_eq_none.mp hNone)).symm
  rw [enrich, enrich, List.foldl_filter, hSkip]

/-! ## The stored record -/

/-- The record of `before` is replaced by that of `after`, and nothing else is
touched. -/
structure Enriched (db db' : DB) (metrics : List AnalysisMetric) (before : Analysis)
    (details : FileDetails) (after : Analysis) : Prop where
  keys : db'.keys = db.keys
  frame : ∀ k, k ≠ before.mainKey → db'.get? k = db.get? k
  record : ∃ p, fromAnalysis after = some p ∧ db'.get? before.mainKey = some (.analysis p)
  fetched : fetchFullByEntityId db' before.nameSpace before.entityId = .ok after
  mainKey : after.mainKey = before.mainKey
  id : after.id = before.id
  entityId : after.entityId = before.entityId
  nameSpace : after.nameSpace = before.nameSpace
  atTime : after.atTime = before.atTime
  payload : ∃ content, after.payload = .file { details with content := content }
  tags : before.tags <+: after.tags
  scores : ∀ metric, after.scores.get? metric =
    ((last? Prod.fst (metrics.filterMap AnalysisMetric.newScore) metric).map Prod.snd).or
      (before.scores.get? metric)

section Stored

variable {marshals : AnalysisPb → Bool} {toLower : String → String}

theorem pointersKeyed_of_reachable {s : ScanState}
    (h : (scanMachine marshals toLower).Reachable s) :
    PointersKeyed s.repo.db := by
  refine Machine.Reachable.invariant (I := fun s : ScanState => PointersKeyed s.repo.db) ?_ ?_ h
  · intro id v hv
    cases hv
  · intro s action t hs hStep
    cases action with
    | store a fault =>
      cases hStep
      obtain ⟨ws, hws, hDb⟩ := store_db marshals toLower s.repo a fault
      exact hDb ▸ hs.insertAll hws
    | storeBatch analyses fault =>
      cases hStep
      obtain ⟨ws, hws, hDb⟩ := storeBatch_db marshals toLower s.repo analyses fault
      exact hDb ▸ hs.insertAll hws
    | foreign key value =>
      change scanStep marshals toLower s (.foreign key value) = some t at hStep
      rw [scanStep] at hStep
      split at hStep
      · cases hStep
        exact hs.foreignWrite ‹_› value
      · cases hStep
    | scan badgerLimit nameSpace cursor =>
      change scanStep marshals toLower s (.scan badgerLimit nameSpace cursor) = some t at hStep
      rw [scanStep] at hStep
      split at hStep
      · split at hStep
        · cases hStep
          exact hs
        · cases hStep
          exact hs
      · cases hStep

/-- An analysis with the key fields of one that is stored replaces it. -/
theorem put_over (toLower : String → String) {repo : Repository} {c next : Analysis}
    {pc : AnalysisPb} (p : AnalysisPb)
    (hPointer : repo.db.get? (indexKey c.entityId) = some (.pointer c.mainKey))
    (hRecord : repo.db.get? c.mainKey = some (.analysis pc)) (hKey : next.mainKey = c.mainKey)
    (hEntity : next.entityId = c.entityId) :
    (repo.put toLower next p).db.keys = repo.db.keys ∧
      ∀ k, k ≠ c.mainKey → (repo.put toLower next p).db.get? k = repo.db.get? k := by
  constructor
  · have hMain : next.mainKey ∈ repo.db.keys :=
      repo.db.mem_keys_iff.mpr ⟨_, hKey ▸ hRecord⟩
    have hIndex : indexKey next.entityId ∈ repo.db.keys :=
      repo.db.mem_keys_iff.mpr ⟨_, hEntity ▸ hPointer⟩
    rw [Repository.put, analysisWrites, OrderedMap.insertAll_cons, OrderedMap.insertAll_cons,
      OrderedMap.insertAll_nil, OrderedMap.keys_insert_of_mem,
      OrderedMap.keys_insert_of_mem _ hMain]
    rwa [OrderedMap.keys_insert_of_mem _ hMain]
  · intro k hk
    rw [repo.get?_put, hEntity, hKey]
    split
    · rename_i hIndex
      rw [hIndex, hPointer]
    · rfl

theorem enriched_of_put {repo : Repository} (hKeyed : AnalysesKeyed repo.db)
    (hPointers : PointersKeyed repo.db) {segment : AnalysisSegment} {before : Analysis}
    {details : FileDetails} (hFetch : fetchForEnrichment repo.db segment = .ok before)
    (hFile : before.payload = .file details) {version : UUID} {p : AnalysisPb}
    (hp : fromAnalysis (enrich before segment version) = some p) :
    Enriched repo.db (repo.put toLower (enrich before segment version) p).db segment.metrics before
      details (enrich before segment version).persisted := by
  obtain ⟨e, _, hRead⟩ := fetchForEnrichment_ok hFetch
  obtain ⟨c, entry, hEntry, hPointer, ⟨pc, _, rfl⟩, hEntity, rfl⟩ :=
    fetch_record hKeyed hPointers hRead
  rw [← hEntity] at hPointer
  have hMerged := enrich_file hFile segment version
  have hFetched := repo.fetch_put toLower hp (enrich c.persisted segment version).nameSpace
  rw [if_pos rfl] at hFetched
  have hKey : (enrich c.persisted segment version).mainKey = c.mainKey := by
    rw [hMerged]
    rfl
  have hId : (enrich c.persisted segment version).entityId = c.entityId := by
    rw [hMerged]
    rfl
  obtain ⟨hKeys, hFrame⟩ :=
    put_over toLower p hPointer (repo.db.get?_eq_some_iff.mpr hEntry) hKey hId
  have hWritten : (repo.put toLower (enrich c.persisted segment version) p).db.get? c.mainKey =
      some (.analysis p) := by
    rw [repo.get?_put, if_neg (mainKey_ne_indexKey c _), hKey, if_pos rfl]
  rw [hMerged] at hp hWritten hFetched hKeys hFrame ⊢
  exact {
    keys := hKeys
    frame := hFrame
    record := ⟨p, hp, hWritten⟩
    fetched := hFetched
    mainKey := rfl
    id := rfl
    entityId := rfl
    nameSpace := rfl
    atTime := rfl
    payload := ⟨_, rfl⟩
    tags := List.prefix_append _ _
    scores := fun metric => OrderedMap.get?_insertAll _ _ metric }

theorem handleAnalysisSegment_fetched {repo : Repository} {segment : AnalysisSegment}
    {before : Analysis} (hFetch : fetchForEnrichment repo.db segment = .ok before) (version : UUID)
    (fault : Fault) :
    handleAnalysisSegment marshals toLower repo segment version fault =
      saveEnriched marshals toLower repo (enrich before segment version) fault := by
  rw [handleAnalysisSegment, hFetch]

theorem handleAnalysisSegment_refused {repo : Repository} {segment : AnalysisSegment}
    {e : SinkError} (hFetch : fetchForEnrichment repo.db segment = .error e) (version : UUID)
    (fault : Fault) :
    handleAnalysisSegment marshals toLower repo segment version fault = (repo, .error e) := by
  rw [handleAnalysisSegment, hFetch]

theorem handleAnalysisSegment_filter (repo : Repository) (segment : AnalysisSegment)
    (version : UUID) (fault : Fault) :
    handleAnalysisSegment marshals toLower repo
        { segment with metrics := segment.metrics.filter fun m => m.value.isSome } version fault =
      handleAnalysisSegment marshals toLower repo segment version fault := by
  have hSame : fetchForEnrichment repo.db
      { segment with metrics := segment.metrics.filter fun m => m.value.isSome } =
        fetchForEnrichment repo.db segment := rfl
  cases hFetch : fetchForEnrichment repo.db segment with
  | error e =>
    rw [handleAnalysisSegment_refused hFetch, handleAnalysisSegment_refused (hSame.trans hFetch)]
  | ok before =>
    rw [handleAnalysisSegment_fetched hFetch, handleAnalysisSegment_fetched (hSame.trans hFetch),
      enrich_filter]

/-- A commit that fails writes nothing. -/
theorem store_uncommitted (marshals : AnalysisPb → Bool) (toLower : String → String)
    (repo : Repository) (a : Analysis) :
    (store marshals toLower repo a (.badger [])).1 = repo := by
  rw [store]
  split
  · rfl
  · split
    · rfl
    · rfl

theorem handleAnalysisSegment_uncommitted (repo : Repository) (segment : AnalysisSegment)
    (version : UUID) :
    (handleAnalysisSegment marshals toLower repo segment version (.badger [])).1 = repo := by
  cases hFetch : fetchForEnrichment repo.db segment with
  | error e => rw [handleAnalysisSegment_refused hFetch]
  | ok before =>
    have hStore := store_uncommitted marshals toLower repo (enrich before segment version)
    rw [handleAnalysisSegment_fetched hFetch, saveEnriched]
    split
    · rename_i hSaved
      rwa [hSaved] at hStore
    · rename_i hSaved
      rwa [hSaved] at hStore

/-- A successful enrichment of a file analysis replaces its record and leaves
everything else; results without a value count for nothing; and the record
stays as it is if the segment finds none or the commit fails. -/
theorem enrichment_changes_only {s : ScanState} (h : (scanMachine marshals toLower).Reachable s)
    (segment : AnalysisSegment) (version : UUID) :
    (∀ before details fault repo', fetchForEnrichment s.repo.db segment = .ok before →
      before.payload = .file details →
      handleAnalysisSegment marshals toLower s.repo segment version fault = (repo', .ok ()) →
      ∃ after, Enriched s.repo.db repo'.db segment.metrics before details after) ∧
    (∀ fault, handleAnalysisSegment marshals toLower s.repo
        { segment with metrics := segment.metrics.filter fun m => m.value.isSome } version fault =
      handleAnalysisSegment marshals toLower s.repo segment version fault) ∧
    (∀ fault e, fetchForEnrichment s.repo.db segment = .error e →
      handleAnalysisSegment marshals toLower s.repo segment version fault = (s.repo, .error e)) ∧
    (handleAnalysisSegment marshals toLower s.repo segment version (.badger [])).1 = s.repo := by
  refine ⟨?_, handleAnalysisSegment_filter s.repo segment version, ?_,
    handleAnalysisSegment_uncommitted s.repo segment version⟩
  · intro before details fault repo' hFetch hFile hOk
    rw [handleAnalysisSegment_fetched hFetch] at hOk
    obtain ⟨p, hp, rfl⟩ := saveEnriched_ok hOk
    exact ⟨_, enriched_of_put (Storage.sound_of_reachable h).keyed (pointersKeyed_of_reachable h)
      hFetch hFile hp⟩
  · intro fault e hFetch
    exact handleAnalysisSegment_refused hFetch version fault

end Stored

def storedFile : ScanState :=
  (scanMachine (fun _ => true) id).after
    [.store { sampleAnalysis "d" 1 with
        tags := ["t"]
        payload := .filePointer
          (some { filename := "f", mimeType := "m", size := 3, content := "" }) } .none]

def scoredSegment : AnalysisSegment where
  driveId := "d"
  fileId := UUID.nil.text
  metrics :=
    [{ id := some "m", resp := some { oneOf := some (.score { score := 1, label := "a" }) },
       specialistErr := none },
     { id := some "m", resp := some { oneOf := some (.score { score := 2, label := "" }) },
       specialistErr := none },
     { id := some "m", resp := some { oneOf := some (.score { score := 3, label := "c" }) },
       specialistErr := some "down" }]

theorem enrichment_changes_only_scored :
    ∃ repo' after, handleAnalysisSegment (fun _ => true) id storedFile.repo scoredSegment UUID.nil
        .none = (repo', .ok ()) ∧
      fetchFullByEntityId repo'.db "d" UUID.nil = .ok after ∧
      repo'.db.keys = storedFile.repo.db.keys ∧ after.scores.get? "m" = some 2 := by
  have hReachable : (scanMachine (fun _ => true) id).Reachable storedFile :=
    Machine.reachable_after _
  obtain ⟨hStored, _⟩ := enrichment_changes_only hReachable scoredSegment UUID.nil
  have hFetch : fetchForEnrichment storedFile.repo.db scoredSegment = .ok
      { sampleAnalysis "d" 1 with
        tags := ["t"]
        payload := .file { filename := "f", mimeType := "m", size := 3, content := "" } } := by
    decide +kernel
  have hOk : (handleAnalysisSegment (fun _ => true) id storedFile.repo scoredSegment UUID.nil
      .none).2 = .ok () := by decide +kernel
  rcases hRun : handleAnalysisSegment (fun _ => true) id storedFile.repo scoredSegment UUID.nil
    .none with ⟨repo', answer⟩
  rw [hRun] at hOk
  obtain rfl : answer = .ok () := hOk
  obtain ⟨after, hAfter⟩ := hStored _ _ .none repo' hFetch rfl hRun
  refine ⟨repo', after, rfl, hAfter.fetched, hAfter.keys, ?_⟩
  rw [hAfter.scores]
  rfl

end ChatLab.Sink
