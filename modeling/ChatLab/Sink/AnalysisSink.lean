import ChatLab.Specialist
import ChatLab.Storage.AnalysisRepository
import ChatLab.Storage.FileTaskRepository

/-!
# The analysis sink

A batch of scanned files becomes one `StoreBatch` of base analyses, after a
task was queued for every file a specialist may want. A later segment reads
the base analysis back, merges the specialists' results into it and stores it
again. A batch is any list of consumed events here; the buffer that forms the
batches is a machine of its own.
-/

namespace ChatLab.Sink

open Foundation ChatLab.Storage

/-- `event.FileAnalyse`, without the attributes and magic bytes no one reads. -/
structure FileAnalyse where
  id : UUID
  path : String
  driveId : String
  size : UInt64
  rawMimeType : String
  effectiveMimeType : MIME
  scannedAt : Int
  sourceType : String
deriving DecidableEq

structure AnalysisMetric where
  id : Option Metric
  resp : Option Response
  specialistErr : Option String
deriving DecidableEq

structure AnalysisSegment where
  driveId : String
  fileId : FileID
  metrics : List AnalysisMetric
deriving DecidableEq

/-! ## Base analyses -/

/-- The one result of the direct path, with payload and analysis side by side.
None is the panic of a result without response. -/
def directResult (acc : Analysis × FileDetails) (res : SpecialistResult) :
    Option (Analysis × FileDetails) :=
  let (analysis, payload) := acc
  match res.resp with
  | none => none
  | some resp =>
    match resp.oneOf with
    | some (.audio data) =>
      some ({ analysis with summary := "Audio Transcription" },
        { payload with content := data.transcription })
    | some (.document data) =>
      let summary := if data.title = "" then analysis.summary else data.title
      let tags := if data.author = "" then analysis.tags
        else analysis.tags ++ ["author:" ++ data.author]
      let content := match data.pages with
        | [] => payload.content
        | page :: _ => page.content
      some ({ analysis with summary := summary, tags := tags }, { payload with content := content })
    | some (.score data) =>
      match res.id with
      | none => some acc
      | some id =>
        some ({ analysis with scores := analysis.scores.insert id data.score,
                              tags := analysis.tags ++ [data.label] }, payload)
    | some .other => some acc
    | none => some acc

def buildFinalAnalysis (evt : FileAnalyse) (resp : SpecialistResponse) (version : UUID) :
    Option Analysis :=
  let analysis : Analysis :=
    { id := evt.id, entityId := evt.id, nameSpace := "file-room", atTime := evt.scannedAt,
      summary := evt.path, tags := [evt.rawMimeType, evt.sourceType], scores := .empty,
      payload := .absent, version := version }
  let payload : FileDetails :=
    { filename := evt.path, mimeType := evt.rawMimeType, size := evt.size, content := "" }
  (resp.res.foldlM directResult (analysis, payload)).map fun (analysis, payload) =>
    { analysis with payload := .file payload }

/-- One event of a batch with what the environment adds: the fresh version, the
clock and whether the task's transaction commits. -/
structure BatchItem where
  event : FileAnalyse
  version : UUID
  now : Int
  enqueues : Bool
deriving DecidableEq

def BatchItem.task (item : BatchItem) : FileTask where
  id := item.event.id.text
  driveId := item.event.driveId
  path := item.event.path
  rawMimeType := item.event.rawMimeType
  effectiveMimeType := item.event.effectiveMimeType
  size := item.event.size
  priority := normal
  createdAt := item.now
  retryCount := 0

def BatchItem.analysis (item : BatchItem) : Option Analysis :=
  buildFinalAnalysis item.event { fileId := "", res := [] } item.version

inductive SinkError
  | invalidFileId
  | fetch (e : AnalysisError)
  | save (e : AnalysisError)
deriving DecidableEq

section Sink

variable (parseMediaType : String → Option String) (marshalsTask : FileTaskPb → Bool)
  (marshals : AnalysisPb → Bool) (toLower : String → String)

def enqueueTasks (db : DB) (items : List BatchItem) : DB :=
  items.foldl (fun db item =>
    match MIME.isAuthorized parseMediaType item.event.rawMimeType with
    | some _ => (enqueueTask marshalsTask db item.task item.enqueues).1
    | none => db) db

def processAndStore (repo : Repository) (items : List BatchItem) (fault : Fault) :
    Repository × Except AnalysisError Unit :=
  match items.mapM BatchItem.analysis with
  | none => (repo, .error .nilPayload)
  | some allAnalyses =>
    let queued := { repo with db := enqueueTasks parseMediaType marshalsTask repo.db items }
    if allAnalyses = [] then (queued, .ok ())
    else storeBatch marshals toLower queued allAnalyses fault

/-! ## Enrichment -/

def mergeMetric (analysis : Analysis) (result : AnalysisMetric) : Analysis :=
  match result.specialistErr with
  | some _ => analysis
  | none =>
    match result.resp.bind Response.oneOf with
    | some (.score data) =>
      match result.id with
      | none => analysis
      | some id =>
        { analysis with scores := analysis.scores.insert id data.score,
                        tags := if data.label = "" then analysis.tags
                          else analysis.tags ++ [data.label] }
    | some (.audio data) =>
      match analysis.payload with
      | .file details => { analysis with payload := .file { details with content := data.transcription } }
      | _ => analysis
    | some (.document data) =>
      { analysis with summary := if data.title = "" then analysis.summary else data.title,
                      tags := if data.author = "" then analysis.tags
                        else analysis.tags ++ ["author:" ++ data.author] }
    | some .other => analysis
    | none => analysis

def enrich (analysis : Analysis) (segment : AnalysisSegment) (version : UUID) : Analysis :=
  { segment.metrics.foldl mergeMetric analysis with version := version }

def fetchForEnrichment (db : DB) (segment : AnalysisSegment) : Except SinkError Analysis :=
  match UUID.parse segment.fileId.toList with
  | none => .error .invalidFileId
  | some fileId =>
    match fetchFullByEntityId db segment.driveId fileId with
    | .error e => .error (.fetch e)
    | .ok analysis => .ok analysis

def saveEnriched (repo : Repository) (analysis : Analysis) (fault : Fault) :
    Repository × Except SinkError Unit :=
  match store marshals toLower repo analysis fault with
  | (next, .ok ()) => (next, .ok ())
  | (next, .error e) => (next, .error (.save e))

def handleAnalysisSegment (repo : Repository) (segment : AnalysisSegment) (version : UUID)
    (fault : Fault) : Repository × Except SinkError Unit :=
  match fetchForEnrichment repo.db segment with
  | .error e => (repo, .error e)
  | .ok analysis => saveEnriched marshals toLower repo (enrich analysis segment version) fault

end Sink

end ChatLab.Sink
