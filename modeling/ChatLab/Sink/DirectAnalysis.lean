import ChatLab.Sink.EnrichmentEffect
import ChatLab.Storage.RepeatedWrites

/-!
# Results at once and results later

`buildFinalAnalysis` can take the specialists' results at once; the pipeline
stores the base analysis first and merges the results with
`handleAnalysisSegment`. Both are folds over the results. They set the scores
alike, but only the first one takes the text of a document's first page, names
an audio file's summary and keeps empty labels. When that shows in the record
is said by the kinds of the results and their order. The second path also has
to find the record, under the drive of the segment.
-/

namespace ChatLab.Sink

open Foundation Foundation.Log ChatLab.Storage

/-! ## What the direct path takes from one result -/

namespace AnalysisMetric

variable (m : AnalysisMetric)

def directTags : List String :=
  match m.value, m.id with
  | some (.score data), some _ => [data.label]
  | some (.document data), _ => if data.author = "" then [] else ["author:" ++ data.author]
  | _, _ => []

def directSummary : Option String :=
  match m.value with
  | some (.audio _) => some "Audio Transcription"
  | some (.document data) => if data.title = "" then none else some data.title
  | _ => none

def directContent : Option String :=
  match m.value with
  | some (.audio data) => some data.transcription
  | some (.document data) => data.pages.head?.map Page.content
  | _ => none

/-- The merge drops exactly the empty tags. -/
theorem newTags_eq : m.newTags = m.directTags.filter fun tag => tag ≠ "" := by
  rw [newTags, directTags]
  cases m.value with
  | none => rfl
  | some answer =>
    cases answer with
    | other => rfl
    | audio data => rfl
    | document data =>
      by_cases hData : data.author = ""
      · simp [hData]
      · simp [hData]
    | score data =>
      cases m.id with
      | none => rfl
      | some id => by_cases hLabel : data.label = "" <;> simp [hLabel]

end AnalysisMetric

def metricOf (r : SpecialistResult) : AnalysisMetric where
  id := r.id
  resp := r.resp
  specialistErr := r.specialistErr

def toAnalysisMetric (results : List SpecialistResult) : List AnalysisMetric := results.map metricOf

/-- The segment that `toEvent` makes of a response. -/
def segmentOf (driveId : String) (resp : SpecialistResponse) : AnalysisSegment where
  driveId := driveId
  fileId := resp.fileId
  metrics := toAnalysisMetric resp.res

/-- A response and no error, as the direct path needs it. -/
def Answered (r : SpecialistResult) : Prop := r.resp.isSome = true ∧ r.specialistErr = none

/-! ## Both paths as one pass -/

/-- A file analysis with the results of a list taken at once. -/
def directRecord (a : Analysis) (details : FileDetails) (metrics : List AnalysisMetric) :
    Analysis × FileDetails :=
  ({ a with
     summary := latest AnalysisMetric.directSummary metrics a.summary
     tags := a.tags ++ metrics.flatMap AnalysisMetric.directTags
     scores := a.scores.insertAll (metrics.filterMap AnalysisMetric.newScore) },
   { details with content := latest AnalysisMetric.directContent metrics details.content })

theorem directResult_answered {r : SpecialistResult} (h : Answered r) (a : Analysis)
    (details : FileDetails) :
    directResult (a, details) r =
      some ({ a with
              summary := (metricOf r).directSummary.getD a.summary
              tags := a.tags ++ (metricOf r).directTags
              scores := a.scores.insertAll (metricOf r).newScore.toList },
            { details with content := (metricOf r).directContent.getD details.content }) := by
  obtain ⟨hSome, hErr⟩ := h
  obtain ⟨resp, hResp⟩ := Option.isSome_iff_exists.mp hSome
  have hValue : (metricOf r).value = resp.oneOf := by
    rw [AnalysisMetric.value, metricOf, hErr, hResp]
    rfl
  have hId : (metricOf r).id = r.id := rfl
  simp only [directResult, hResp, AnalysisMetric.directSummary, AnalysisMetric.directTags,
    AnalysisMetric.directContent, AnalysisMetric.newScore, hValue, hId]
  cases resp.oneOf with
  | none => simp
  | some answer =>
    cases answer with
    | other => simp
    | audio data => simp
    | document data =>
      obtain ⟨title, author, _, _, pages⟩ := data
      by_cases hTitle : title = "" <;> by_cases hAuthor : author = "" <;> cases pages <;>
        simp [hTitle, hAuthor]
    | score data =>
      cases r.id with
      | none => simp
      | some id => simp

theorem foldlM_directResult {results : List SpecialistResult} (h : ∀ r ∈ results, Answered r)
    (a : Analysis) (details : FileDetails) :
    results.foldlM directResult (a, details) =
      some (directRecord a details (toAnalysisMetric results)) := by
  induction results generalizing a details with
  | nil => simp [directRecord, toAnalysisMetric, latest]
  | cons r results ih =>
    obtain ⟨hHead, hRest⟩ := List.forall_mem_cons.mp h
    have hCons : toAnalysisMetric (r :: results) = metricOf r :: toAnalysisMetric results := rfl
    rw [List.foldlM_cons, directResult_answered hHead, Option.bind_eq_bind, Option.bind_some,
      ih hRest, hCons]
    simp only [directRecord, latest_cons, filterMap_cons_toList, OrderedMap.insertAll_append,
      List.flatMap_cons, List.append_assoc]

/-! ## The two records -/

def withVersion (a : Analysis) (version : UUID) : Analysis := { a with version := version }

theorem eq_of_withVersion {a b : Analysis} {version : UUID} (hVersion : a.version = b.version)
    (h : withVersion a version = withVersion b version) : a = b := by
  cases a
  cases b
  cases hVersion
  cases h
  rfl

def BatchItem.details (item : BatchItem) : FileDetails :=
  { filename := item.event.path, mimeType := item.event.rawMimeType, size := item.event.size,
    content := "" }

/-- The analysis that the direct path builds, but for the version. -/
def BatchItem.direct (item : BatchItem) (metrics : List AnalysisMetric) : Analysis :=
  { (directRecord item.base item.details metrics).1 with
    payload := .file (directRecord item.base item.details metrics).2 }

/-- The analysis that the merge leaves, but for the version. -/
def BatchItem.merged (item : BatchItem) (metrics : List AnalysisMetric) : Analysis :=
  mergedRecord item.base item.details metrics

theorem buildFinalAnalysis_answered (item : BatchItem) {resp : SpecialistResponse}
    (h : ∀ r ∈ resp.res, Answered r) (version : UUID) :
    buildFinalAnalysis item.event resp version =
      some (withVersion (item.direct (toAnalysisMetric resp.res)) version) := by
  rw [buildFinalAnalysis]
  simp only [foldlM_directResult h]
  rfl

theorem enrich_base (item : BatchItem) (driveId : String) (resp : SpecialistResponse)
    (version : UUID) :
    enrich item.base.persisted (segmentOf driveId resp) version =
      withVersion (item.merged (toAnalysisMetric resp.res)) version := by
  have hFile : item.base.persisted.payload = .file item.details := rfl
  exact enrich_file hFile (segmentOf driveId resp) version

/-! ## Kinds of results -/

namespace AnalysisMetric

variable (m : AnalysisMetric)

/-- The label of a score that names its metric. -/
def label : Option String :=
  match m.value, m.id with
  | some (.score data), some _ => some data.label
  | _, _ => none

/-- The title of a document that has one. -/
def title : Option String :=
  match m.value with
  | some (.document data) => if data.title = "" then none else some data.title
  | _ => none

/-- The text of an audio file. -/
def transcription : Option String :=
  match m.value with
  | some (.audio data) => some data.transcription
  | _ => none

/-- The text of the first page of a document that has pages. -/
def firstPage : Option String :=
  match m.value with
  | some (.document data) => data.pages.head?.map Page.content
  | _ => none

theorem directSummary_eq :
    m.directSummary = m.title.or (m.transcription.map fun _ => "Audio Transcription") := by
  rw [directSummary, title, transcription]
  cases m.value with
  | none => rfl
  | some answer =>
    cases answer with
    | document data => simp
    | _ => rfl

theorem directContent_eq : m.directContent = m.transcription.or m.firstPage := by
  rw [directContent, transcription, firstPage]
  cases m.value with
  | none => rfl
  | some answer => cases answer <;> rfl

theorem title_or_transcription : m.title = none ∨ m.transcription = none := by
  rw [title, transcription]
  cases m.value with
  | none => exact .inl rfl
  | some answer =>
    cases answer with
    | document data => exact .inr rfl
    | _ => exact .inl rfl

theorem transcription_or_firstPage : m.transcription = none ∨ m.firstPage = none := by
  rw [transcription, firstPage]
  cases m.value with
  | none => exact .inl rfl
  | some answer =>
    cases answer with
    | audio data => exact .inr rfl
    | _ => exact .inl rfl

theorem mem_directTags_iff : "" ∈ m.directTags ↔ m.label = some "" := by
  rw [directTags, label]
  cases m.value with
  | none => simp
  | some answer =>
    cases answer with
    | other => simp
    | audio data => simp
    | document data =>
      by_cases hData : data.author = ""
      · simp [hData]
      · have hTag : "" ≠ "author:" ++ data.author := by
          intro hEmpty
          simp at hEmpty
        simp [hData, hTag]
    | score data =>
      cases m.id with
      | none => simp
      | some id =>
        dsimp only
        rw [List.mem_singleton, Option.some.injEq, eq_comm]

end AnalysisMetric

/-- The results for which the merge gives what the direct path gives. No label
is empty. Where an audio result comes after the last titled document, that
title, or the path of the file without one, is the name of a transcription.
Where a document with pages comes after the last audio result, the text of its
first page is that transcription, or empty without one. -/
structure MergesAlike (path : String) (metrics : List AnalysisMetric) : Prop where
  labels : ∀ m ∈ metrics, m.label ≠ some ""
  summary : ∀ before m after text, metrics = before ++ m :: after → m.transcription = some text →
    (∀ x ∈ after, x.title = none ∧ x.transcription = none) →
    latest AnalysisMetric.title before path = "Audio Transcription"
  content : ∀ before m after text, metrics = before ++ m :: after → m.firstPage = some text →
    (∀ x ∈ after, x.transcription = none ∧ x.firstPage = none) →
    latest AnalysisMetric.transcription before "" = text

theorem summary_alike_iff (path : String) (metrics : List AnalysisMetric) :
    latest AnalysisMetric.directSummary metrics path =
        latest AnalysisMetric.newSummary metrics path ↔
      ∀ before m after text, metrics = before ++ m :: after → m.transcription = some text →
        (∀ x ∈ after, x.title = none ∧ x.transcription = none) →
        latest AnalysisMetric.title before path = "Audio Transcription" := by
  have hApart : ∀ m : AnalysisMetric, m.title = none ∨
      (m.transcription.map fun _ => "Audio Transcription") = none := fun m =>
    m.title_or_transcription.imp_right Option.map_eq_none_iff.mpr
  have hDirect : AnalysisMetric.directSummary = fun m => m.title.or
      (m.transcription.map fun _ => "Audio Transcription") := funext fun m => m.directSummary_eq
  have hNew : AnalysisMetric.newSummary = AnalysisMetric.title := rfl
  rw [hDirect, hNew, latest_or_eq_iff hApart]
  constructor
  · intro hLast before m after text hSplit hm hAfter
    refine hLast before m after _ hSplit (by rw [hm]; rfl) fun x hx => ?_
    exact (hAfter x hx).imp_right Option.map_eq_none_iff.mpr
  · intro hLast before m after name hSplit hm hAfter
    obtain ⟨text, hText, rfl⟩ := Option.map_eq_some_iff.mp hm
    refine hLast before m after text hSplit hText fun x hx => ?_
    exact (hAfter x hx).imp_right Option.map_eq_none_iff.mp

theorem content_alike_iff (metrics : List AnalysisMetric) :
    latest AnalysisMetric.directContent metrics "" =
        latest AnalysisMetric.newContent metrics "" ↔
      ∀ before m after text, metrics = before ++ m :: after → m.firstPage = some text →
        (∀ x ∈ after, x.transcription = none ∧ x.firstPage = none) →
        latest AnalysisMetric.transcription before "" = text := by
  have hDirect : AnalysisMetric.directContent = fun m => m.transcription.or m.firstPage :=
    funext fun m => m.directContent_eq
  have hNew : AnalysisMetric.newContent = AnalysisMetric.transcription := rfl
  rw [hDirect, hNew, latest_or_eq_iff AnalysisMetric.transcription_or_firstPage]

theorem flatMap_newTags (metrics : List AnalysisMetric) :
    metrics.flatMap AnalysisMetric.newTags =
      (metrics.flatMap AnalysisMetric.directTags).filter fun tag => tag ≠ "" := by
  rw [List.filter_flatMap]
  exact List.flatMap_congr fun m _ => m.newTags_eq

theorem flatMap_newTags_eq_iff (metrics : List AnalysisMetric) :
    metrics.flatMap AnalysisMetric.newTags = metrics.flatMap AnalysisMetric.directTags ↔
      ∀ m ∈ metrics, m.label ≠ some "" := by
  rw [flatMap_newTags, List.filter_eq_self]
  constructor
  · intro hAll m hm hEmpty
    have hTag := List.mem_flatMap.mpr ⟨m, hm, m.mem_directTags_iff.mpr hEmpty⟩
    exact absurd (hAll _ hTag) (by simp)
  · intro hNone tag hTag
    obtain ⟨m, hm, hIn⟩ := List.mem_flatMap.mp hTag
    have hTagNe : tag ≠ "" := fun hEmpty => hNone m hm (m.mem_directTags_iff.mp (hEmpty ▸ hIn))
    simpa using hTagNe

theorem merged_eq_direct_iff (item : BatchItem) (metrics : List AnalysisMetric) :
    item.merged metrics = item.direct metrics ↔ MergesAlike item.event.path metrics := by
  constructor
  · intro hEq
    refine ⟨(flatMap_newTags_eq_iff metrics).mp ?_, ?_, ?_⟩
    · exact List.append_cancel_left (congrArg Analysis.tags hEq)
    · exact (summary_alike_iff _ metrics).mp (congrArg Analysis.summary hEq).symm
    · have hPayload := Payload.file.inj (congrArg Analysis.payload hEq)
      exact (content_alike_iff metrics).mp (congrArg FileDetails.content hPayload).symm
  · intro hAlike
    have hContent : latest AnalysisMetric.directContent metrics item.details.content =
        latest AnalysisMetric.newContent metrics item.details.content :=
      (content_alike_iff metrics).mpr hAlike.content
    have hSummary : latest AnalysisMetric.directSummary metrics item.base.summary =
        latest AnalysisMetric.newSummary metrics item.base.summary :=
      (summary_alike_iff item.event.path metrics).mpr hAlike.summary
    have hTags := (flatMap_newTags_eq_iff metrics).mpr hAlike.labels
    rw [BatchItem.merged, mergedRecord, BatchItem.direct, directRecord, hTags, hContent, hSummary]

/-! ## Stored and indexed -/

section Stored

variable (marshals : AnalysisPb → Bool) (toLower : String → String)

/-- The segment is merged, and then the stored record is the given analysis but
for the version, and the search document is its document. -/
def StoredAs (repo : Repository) (segment : AnalysisSegment) (version : UUID) (a : Analysis) :
    Prop :=
  ∃ repo' stored,
    handleAnalysisSegment marshals toLower repo segment version .none = (repo', .ok ()) ∧
    fetchFullByEntityId repo'.db a.nameSpace a.entityId = .ok stored ∧
    withVersion stored a.version = a ∧
    repo'.documents.get? a.entityId.text = some (documentOf toLower a).2

variable {marshals} {item : BatchItem} {p : AnalysisPb}
  {resp : SpecialistResponse}

theorem fetch_base (before : Repository) (hp : fromAnalysis item.base = some p)
    (hFile : resp.fileId = item.event.id.text) (driveId : String) :
    fetchForEnrichment (before.put toLower item.base p).db (segmentOf driveId resp) =
      if driveId = "file-room" then .ok item.base.persisted
      else .error (.fetch (.securityViolation item.event.id driveId)) := by
  have hParse : UUID.parse (segmentOf driveId resp).fileId.toList = some item.event.id := by
    rw [segmentOf, hFile, UUID.parse_text]
  have hFetch := before.fetch_put toLower hp driveId
  have hName : item.base.nameSpace = "file-room" := rfl
  have hEntity : item.base.entityId = item.event.id := rfl
  rw [hName, hEntity] at hFetch
  rw [fetchForEnrichment, hParse]
  simp only [segmentOf, hFetch]
  by_cases hDrive : driveId = "file-room"
  · rw [if_pos hDrive, if_pos hDrive.symm]
  · rw [if_neg hDrive, if_neg (Ne.symm hDrive)]

variable {toLower} {before : Repository}

/-- What is stored after the merge is the merged analysis. -/
theorem merged_of_storedAs (hp : fromAnalysis item.base = some p)
    (hFile : resp.fileId = item.event.id.text) {driveId : String} {version version' : UUID}
    (h : StoredAs marshals toLower (before.put toLower item.base p) (segmentOf driveId resp)
      version' (withVersion (item.direct (toAnalysisMetric resp.res)) version)) :
    driveId = "file-room" ∧
      item.merged (toAnalysisMetric resp.res) = item.direct (toAnalysisMetric resp.res) := by
  obtain ⟨repo', stored, hHandle, hFetched, hSame, _⟩ := h
  have hFetch := fetch_base toLower before hp hFile driveId
  by_cases hDrive : driveId = "file-room"
  · rw [if_pos hDrive] at hFetch
    rw [handleAnalysisSegment_fetched hFetch, enrich_base] at hHandle
    obtain ⟨q, hq, rfl⟩ := saveEnriched_ok hHandle
    have hAfter := (before.put toLower item.base p).fetch_put toLower hq
      (withVersion (item.merged (toAnalysisMetric resp.res)) version').nameSpace
    rw [if_pos rfl] at hAfter
    obtain rfl := Except.ok.inj (hAfter.symm.trans hFetched)
    exact ⟨hDrive, eq_of_withVersion rfl hSame⟩
  · rw [if_neg hDrive] at hFetch
    rw [handleAnalysisSegment_refused hFetch] at hHandle
    cases (Prod.mk.inj hHandle).2

theorem storedAs_of_merged (hp : fromAnalysis item.base = some p)
    (hFile : resp.fileId = item.event.id.text) {version version' : UUID}
    (hSame : item.merged (toAnalysisMetric resp.res) = item.direct (toAnalysisMetric resp.res))
    (hAccepts : accepts marshals
      (withVersion (item.direct (toAnalysisMetric resp.res)) version) = true) :
    StoredAs marshals toLower (before.put toLower item.base p) (segmentOf "file-room" resp) version'
      (withVersion (item.direct (toAnalysisMetric resp.res)) version) := by
  have hFetch := fetch_base toLower before hp hFile "file-room"
  rw [if_pos rfl] at hFetch
  -- the record does not hold the version, so it is the same for both
  obtain ⟨q, hq, hMarshals⟩ := accepts_iff.mp hAccepts
  have hMerged : fromAnalysis (withVersion (item.direct (toAnalysisMetric resp.res)) version') =
      some q := hq
  have hFetched := (before.put toLower item.base p).fetch_put toLower hMerged "file-room"
  have hStore := store_statements toLower hMerged hMarshals (before.put toLower item.base p)
  refine ⟨(before.put toLower item.base p).put toLower
    (withVersion (item.direct (toAnalysisMetric resp.res)) version') q, _, ?_, hFetched, rfl, ?_⟩
  · rw [handleAnalysisSegment_fetched hFetch, enrich_base, hSame, saveEnriched, hStore]
    rfl
  · exact OrderedMap.get?_insert_self _ _ _

/-- The base analysis of an event is stored with its batch and the results are
merged by a segment. The record and the document are those of the direct path
exactly if the segment names the fixed namespace and the kinds and the order of
the results are such that they merge alike. -/
theorem deferred_equals_direct_iff {repo repo' : Repository} {analyses : List Analysis}
    (hDistinct : (analyses.map Analysis.entityId).Nodup) (hItem : item.base ∈ analyses)
    (hStored : storeBatch marshals toLower repo analyses .none = (repo', .ok ()))
    (hFile : resp.fileId = item.event.id.text) (hAnswered : ∀ r ∈ resp.res, Answered r)
    {direct : Analysis} {version : UUID}
    (hDirect : buildFinalAnalysis item.event resp version = some direct)
    (hAccepts : accepts marshals direct = true) (driveId : String) (version' : UUID) :
    StoredAs marshals toLower repo' (segmentOf driveId resp) version' direct ↔
      driveId = "file-room" ∧ MergesAlike item.event.path (toAnalysisMetric resp.res) := by
  rw [buildFinalAnalysis_answered item hAnswered] at hDirect
  obtain rfl := Option.some.inj hDirect
  obtain ⟨before, p, hp, rfl⟩ := storeBatch_put hDistinct hStored hItem
  rw [← merged_eq_direct_iff]
  constructor
  · exact merged_of_storedAs hp hFile
  · rintro ⟨rfl, hSame⟩
    exact storedAs_of_merged hp hFile hSame hAccepts

end Stored

def scannedItem : BatchItem where
  event := { id := UUID.nil, path := "/a.pdf", driveId := "file-room", size := 3,
             rawMimeType := "application/pdf", effectiveMimeType := .applicationPDF, scannedAt := 1,
             sourceType := "disk" }
  version := UUID.nil
  now := 1
  enqueues := true

def scannedRepository : Repository :=
  (storeBatch (fun _ => true) id { db := .empty, documents := .empty } [scannedItem.base] .none).1

def documentResponse (pages : List Page) : SpecialistResponse where
  fileId := UUID.nil.text
  res :=
    [{ id := none
       resp := some { oneOf := some (.document
         { title := "T", author := "A", pageCount := 1, language := "en", pages := pages }) }
       specialistErr := none }]

theorem documentResponse_answered (pages : List Page) :
    ∀ r ∈ (documentResponse pages).res, Answered r := by
  intro r hr
  obtain rfl := List.mem_singleton.mp hr
  exact ⟨rfl, rfl⟩

theorem deferred_equals_direct_titled :
    ∃ direct, buildFinalAnalysis scannedItem.event (documentResponse []) UUID.nil = some direct ∧
      StoredAs (fun _ => true) id scannedRepository (segmentOf "file-room" (documentResponse []))
        UUID.nil direct := by
  have hItem : scannedItem.base ∈ [scannedItem.base] := List.mem_singleton_self _
  have hDistinct : ([scannedItem.base].map Analysis.entityId).Nodup := List.nodup_singleton _
  have hStored : storeBatch (fun _ => true) id { db := .empty, documents := .empty }
      [scannedItem.base] .none = (scannedRepository, .ok ()) := rfl
  -- one document without pages: neither an audio result nor a page to miss
  have hOnly : ∀ m ∈ toAnalysisMetric (documentResponse []).res,
      m.label = none ∧ m.transcription = none ∧ m.firstPage = none := by decide
  have hAlike : MergesAlike scannedItem.event.path
      (toAnalysisMetric (documentResponse []).res) := by
    refine ⟨fun m hm hLabel => ?_, fun before m after text hSplit hm => ?_,
      fun before m after text hSplit hm => ?_⟩
    · rw [(hOnly m hm).1] at hLabel
      cases hLabel
    · rw [(hOnly m (hSplit ▸ List.mem_append_right _ List.mem_cons_self)).2.1] at hm
      cases hm
    · rw [(hOnly m (hSplit ▸ List.mem_append_right _ List.mem_cons_self)).2.2] at hm
      cases hm
  refine ⟨_, rfl, ?_⟩
  exact (deferred_equals_direct_iff hDistinct hItem hStored rfl (documentResponse_answered []) rfl
    rfl "file-room" UUID.nil).mpr ⟨rfl, hAlike⟩

/-- The text of the page does not reach the record. -/
theorem deferred_loses_page :
    ¬ ∀ resp : SpecialistResponse, (∀ r ∈ resp.res, Answered r) → resp.fileId = UUID.nil.text →
      ∀ direct, buildFinalAnalysis scannedItem.event resp UUID.nil = some direct →
        StoredAs (fun _ => true) id scannedRepository (segmentOf "file-room" resp) UUID.nil
          direct := by
  intro hAlways
  let resp := documentResponse [{ number := 1, content := "text" }]
  obtain ⟨repo', stored, hHandle, hFetched, hSame, _⟩ :=
    hAlways resp (documentResponse_answered _) rfl _ rfl
  have hContent : ((fetchFullByEntityId (handleAnalysisSegment (fun _ => true) id scannedRepository
      (segmentOf "file-room" resp) UUID.nil .none).1.db "file-room" UUID.nil).toOption.map
        Analysis.payload) = some (.file scannedItem.details) := by decide +kernel
  rw [hHandle] at hContent
  have hStored : fetchFullByEntityId repo'.db "file-room" UUID.nil = .ok stored := hFetched
  rw [hStored] at hContent
  have hPayload : stored.payload = .file { scannedItem.details with content := "text" } :=
    congrArg Analysis.payload hSame
  rw [Except.toOption, Option.map_some, hPayload] at hContent
  exact absurd hContent (by decide)

end ChatLab.Sink
