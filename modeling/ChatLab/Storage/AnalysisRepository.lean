import ChatLab.Storage.Database

/-!
# The analysis repository

An analysis is written twice: the record under a key of namespace, time and
entity, and a pointer to that key under the entity alone. A search document
follows in the Bluge index. A write can fail after any part of it reached
either store; the argument `Fault` says which part. Search queries are not
modelled here.
-/

namespace ChatLab.Storage

open Foundation Foundation.Decimal

structure TextContent where
  content : String
deriving DecidableEq

structure AudioDetails where
  transcription : String
  duration : Float64
deriving DecidableEq

structure FileDetails where
  filename : String
  mimeType : String
  size : UInt64
  content : String
deriving DecidableEq

/-- The dynamic type of the payload. A pointer may be a typed nil. -/
inductive Payload
  | absent
  | text (p : TextContent)
  | textPointer (p : Option TextContent)
  | audio (p : AudioDetails)
  | audioPointer (p : Option AudioDetails)
  | file (p : FileDetails)
  | filePointer (p : Option FileDetails)
  | other
deriving DecidableEq

structure Analysis where
  id : UUID
  entityId : UUID
  nameSpace : String
  atTime : Int
  summary : String
  tags : List String
  scores : OrderedMap Metric Float64
  payload : Payload
  version : UUID
deriving DecidableEq

inductive Category
  | textType | audioType | fileType
deriving DecidableEq, Repr

structure Document where
  content : String
  nameSpace : String
  category : Category
  numeric : List (String × Float64)
deriving DecidableEq

inductive AnalysisError
  | nilPayload
  | marshal (entityId : UUID)
  | badger
  | bluge
  | indexNotFound (entityId : UUID)
  | dataNotFound (entityId : UUID)
  | unmarshal
  | invalidAnalysisId
  | invalidEntityId
  | securityViolation (entityId : UUID) (nameSpace : String)
deriving DecidableEq

/-! ## Conversions -/

def TextContent.toPb (p : TextContent) : PayloadPb := .textContent p.content

def AudioDetails.toPb (p : AudioDetails) : PayloadPb := .audio p.transcription p.duration

def FileDetails.toPb (p : FileDetails) : PayloadPb := .file p.filename p.mimeType p.size p.content

/-- The payload switch of `fromAnalysis`. The outer none is the panic of a nil
pointer; a payload of another type is dropped. -/
def Payload.toPb : Payload → Option (Option PayloadPb)
  | .absent => some none
  | .text p => some (some p.toPb)
  | .textPointer p => p.map fun p => some p.toPb
  | .audio p => some (some p.toPb)
  | .audioPointer p => p.map fun p => some p.toPb
  | .file p => some (some p.toPb)
  | .filePointer p => p.map fun p => some p.toPb
  | .other => some none

def PayloadPb.toPayload : PayloadPb → Payload
  | .textContent content => .text { content := content }
  | .audio transcription durationSec =>
    .audio { transcription := transcription, duration := durationSec }
  | .file filename mimeType size content =>
    .file { filename := filename, mimeType := mimeType, size := size, content := content }

def fromAnalysis (a : Analysis) : Option AnalysisPb :=
  a.payload.toPb.map fun payload =>
    { id := a.id.text, entityId := a.entityId.text, nameSpace := a.nameSpace, atTime := a.atTime,
      summary := a.summary, tags := a.tags, scores := a.scores, payload := payload }

/-- `ToAnalysis`; the record format has no version, which comes back as zero. -/
def toAnalysis (p : AnalysisPb) : Except AnalysisError Analysis :=
  match UUID.parse p.id.toList with
  | none => .error .invalidAnalysisId
  | some id =>
    match UUID.parse p.entityId.toList with
    | none => .error .invalidEntityId
    | some entityId =>
      .ok { id := id, entityId := entityId, nameSpace := p.nameSpace, atTime := p.atTime,
            summary := p.summary, tags := p.tags, scores := p.scores,
            payload := (p.payload.map PayloadPb.toPayload).getD .absent, version := UUID.nil }

def prepareInternalData (a : Analysis) : String × Category :=
  let fileText := fun p : FileDetails =>
    let named := a.summary ++ " " ++ p.filename
    if p.content = "" then named else named ++ " " ++ p.content
  match a.payload with
  | .absent => (a.summary, .textType)
  | .text p => (a.summary ++ " " ++ p.content, .textType)
  | .textPointer p => ((p.map fun p => a.summary ++ " " ++ p.content).getD a.summary, .textType)
  | .audio p => (a.summary ++ " " ++ p.transcription, .audioType)
  | .audioPointer p =>
    ((p.map fun p => a.summary ++ " " ++ p.transcription).getD a.summary, .audioType)
  | .file p => (fileText p, .fileType)
  | .filePointer p => ((p.map fileText).getD a.summary, .fileType)
  | .other => (a.summary, .textType)

/-! ## Keys -/

def namespaceStem (nameSpace : String) : Key := analysisStem ++ (nameSpace.toList ++ [':'])

/-- `analysis:%s:%019d:%s`. -/
def buildKey (nameSpace : String) (atTime : Int) (entityId : UUID) : Key :=
  namespaceStem nameSpace ++ (padded 19 (unixNano atTime) ++ ':' :: entityId.string)

/-- `idx:msg:%s`. -/
def indexKey (entityId : UUID) : Key := indexStem ++ entityId.string

def Analysis.mainKey (a : Analysis) : Key := buildKey a.nameSpace a.atTime a.entityId

def analysisWrites (a : Analysis) (p : AnalysisPb) : List (Key × Value) :=
  [(a.mainKey, .analysis p), (indexKey a.entityId, .pointer a.mainKey)]

/-! ## Writing -/

structure Repository where
  db : DB
  documents : OrderedMap String Document
deriving DecidableEq

/-- What the two stores do with a write: all of it, or a failure that still
keeps some of the sets or documents. -/
inductive Fault
  | none
  | badger (sets : List Bool)
  | bluge (documents : List Bool)
deriving DecidableEq

/-- The sets that had reached Badger when the batch was abandoned before its
flush: a large batch commits on the way. -/
def Fault.early : Fault → List Bool
  | .badger sets => sets
  | _ => []

section Writes

/-! `marshals` says which records `proto.Marshal` accepts; `toLower` is
`strings.ToLower`. -/

variable (marshals : AnalysisPb → Bool) (toLower : String → String)

def documentOf (a : Analysis) : String × Document :=
  let (content, category) := prepareInternalData a
  (a.entityId.text,
    { content := content, nameSpace := a.nameSpace, category := category,
      numeric := a.scores.entries.map fun e => (toLower e.1, e.2) })

def commitWrites (repo : Repository) (sets : List (Key × Value))
    (documents : List (String × Document)) : Fault → Repository × Except AnalysisError Unit
  | .none =>
    ({ db := repo.db.insertAll sets, documents := repo.documents.insertAll documents }, .ok ())
  | .badger mask =>
    ({ repo with db := repo.db.insertAll (OrderedMap.kept mask sets) }, .error .badger)
  | .bluge mask =>
    ({ db := repo.db.insertAll sets,
       documents := repo.documents.insertAll (OrderedMap.kept mask documents) }, .error .bluge)

def store (repo : Repository) (a : Analysis) (fault : Fault) :
    Repository × Except AnalysisError Unit :=
  match fromAnalysis a with
  | none => (repo, .error .nilPayload)
  | some p =>
    if marshals p then commitWrites repo (analysisWrites a p) [documentOf toLower a] fault
    else (repo, .error (.marshal a.entityId))

/-- The sets of a batch up to the first analysis that cannot be marshalled, and
the error of that one. -/
def prepareBatch : List Analysis → List (Key × Value) × Option AnalysisError
  | [] => ([], none)
  | a :: rest =>
    match fromAnalysis a with
    | none => ([], some .nilPayload)
    | some p =>
      if marshals p then
        (analysisWrites a p ++ (prepareBatch rest).1, (prepareBatch rest).2)
      else ([], some (.marshal a.entityId))

def storeBatch (repo : Repository) (analyses : List Analysis) (fault : Fault) :
    Repository × Except AnalysisError Unit :=
  match prepareBatch marshals analyses with
  | (sets, some e) =>
    ({ repo with db := repo.db.insertAll (OrderedMap.kept fault.early sets) }, .error e)
  | (sets, none) => commitWrites repo sets (analyses.map (documentOf toLower)) fault

end Writes

/-! ## Reading -/

def decodeAnalysis : Value → Except AnalysisError Analysis
  | .analysis p => toAnalysis p
  | _ => .error .unmarshal

def collectAnalyses (badgerLimit : Option Int) (stem : Key) :
    List (Key × Value) → List Analysis → Key → Except AnalysisError (List Analysis × Key × Bool)
  | [], analyses, lastKey => .ok (analyses, lastKey, false)
  | (k, v) :: it, analyses, lastKey =>
    if stem.isPrefixOf k then
      if badgerLimit.any (fun n => decide (n ≤ (analyses.length : Int))) then .ok (analyses, lastKey, true)
      else
        match decodeAnalysis v with
        | .error e => .error e
        | .ok a => collectAnalyses badgerLimit stem it (analyses ++ [a]) (k.drop stem.length)
    else .ok (analyses, lastKey, false)

def scanAnalysesByRoom (badgerLimit : Option Int) (db : DB) (nameSpace : String)
    (cursor : Option Key) : Except AnalysisError (List Analysis × Option Key) :=
  let stem := namespaceStem nameSpace
  match collectAnalyses badgerLimit stem (reverseIterator db stem cursor) [] [] with
  | .error e => .error e
  | .ok (analyses, lastKey, hasMore) =>
    if analyses = [] then .ok (analyses, none)
    else if hasMore then .ok (analyses, some lastKey)
    else .ok (analyses, none)

def fetchFullByEntityId (db : DB) (nameSpace : String) (entityId : UUID) :
    Except AnalysisError Analysis :=
  match db.get? (indexKey entityId) with
  | some (.pointer mainKey) =>
    match db.get? mainKey with
    | none => .error (.dataNotFound entityId)
    | some v =>
      match decodeAnalysis v with
      | .error e => .error e
      | .ok res =>
        if res.nameSpace = nameSpace then .ok res
        else .error (.securityViolation entityId nameSpace)
  | some _ => .error (.dataNotFound entityId)
  | none => .error (.indexNotFound entityId)

end ChatLab.Storage
