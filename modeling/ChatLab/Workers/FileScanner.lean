import ChatLab.Domain
import ChatLab.Foundation.Machine

/-!
# The directory scan

Scanner workers share one channel of directories, which they both read and
feed: a worker lists a directory, sends every subdirectory back into the
channel and a request for every authorized file to the sender. `scanWG` counts
the directories that were announced and not finished.

The file system does not change during a scan. It is seen through what
`ReadDir` and the first `Read` of a file answer; `filepath.Join`, MIME
detection and the parser of media types are any functions. Requests are always
taken from `fileChan` in the end, so a send there is a step that may come late.
There is no cancellation here, and pauses for back pressure are delays of the
worker that took a directory.
-/

namespace ChatLab.Workers

open Foundation

inductive SourceType
  | unspecified | localFixed | removable | network
deriving DecidableEq, Repr

structure FileAnalyzerRequest where
  path : String
  driveId : String
  size : UInt64
  attributes : UInt32
  mimeType : String
  magicBytes : List UInt8
  scannedAt : Int
  sourceType : SourceType
deriving DecidableEq

inductive EntryType
  | symlink | directory | regular | other
deriving DecidableEq, Repr

/-- An entry of a directory; its size is missing where `Info` fails. -/
structure DirEntry where
  name : String
  type : EntryType
  info : Option Int
deriving DecidableEq

structure FileSystem where
  readDir : String → Option (List DirEntry)
  -- the bytes that the first `Read` returns; none where `Open` fails
  sniff : String → Option (List UInt8)

structure Scanner where
  fs : FileSystem
  join : String → String → String
  detect : List UInt8 → String
  parseMediaType : String → Option String
  driveId : String
  -- the capacity of `dirChan`
  bufferSize : Nat

inductive ScanWorker
  | idle
  | opening (dir : String)
  | listing (dir : String) (rest : List DirEntry)
  | sendingDir (dir path : String) (rest : List DirEntry)
  | sendingFile (dir : String) (req : FileAnalyzerRequest) (rest : List DirEntry)
deriving DecidableEq

structure ScanCounters where
  errorCount : UInt64
  dirsScanned : UInt64
  skippedItem : UInt64
  scannerBytes : UInt64
  filesFound : UInt64
deriving DecidableEq

structure ScanState where
  dirChan : List String
  workers : List ScanWorker
  -- calls of `TriggerScan` that still have to send their root
  callers : List String
  scanWG : Int
  -- the requests sent so far
  fileChan : List FileAnalyzerRequest
  counters : ScanCounters
deriving DecidableEq

/-- A send either finds room in the channel or, when the channel is empty,
meets a worker that waits in its receive. -/
inductive ScanAction
  | trigger (root : String)
  | sendRoot (k : Nat)
  | handRoot (k j : Nat)
  | receive (i : Nat)
  | readDir (i : Nat)
  | nextEntry (i : Nat) (now : Int)
  | sendDir (i : Nat)
  | handDir (i j : Nat)
  | sendFile (i : Nat)
deriving DecidableEq

namespace Scanner

variable (c : Scanner)

/-- The request that `processFile` sends for a regular file, if it sends one. -/
def processFile (path : String) (entry : DirEntry) (now : Int) : Option FileAnalyzerRequest :=
  match entry.info with
  | none => none
  | some size =>
    let magicBytes := (c.fs.sniff path).getD []
    let mimeType := c.detect magicBytes
    match MIME.isAuthorized c.parseMediaType mimeType with
    | none => none
    | some _ => some
        { path := path, driveId := c.driveId, size := UInt64.ofInt size, attributes := 0,
          mimeType := mimeType, magicBytes := magicBytes, scannedAt := now,
          sourceType := .localFixed }

/-- One round of the loop over the entries. -/
def visitEntry (s : ScanState) (i : Nat) (dir : String) (entry : DirEntry)
    (rest : List DirEntry) (now : Int) : ScanState :=
  let fullPath := c.join dir entry.name
  match entry.type with
  | .directory => { s with
      scanWG := s.scanWG + 1
      workers := s.workers.set i (.sendingDir dir fullPath rest) }
  | .regular =>
    match c.processFile fullPath entry now with
    | none => { s with workers := s.workers.set i (.listing dir rest) }
    | some req => { s with workers := s.workers.set i (.sendingFile dir req rest) }
  | .symlink | .other => { s with
      workers := s.workers.set i (.listing dir rest)
      counters := { s.counters with skippedItem := s.counters.skippedItem + 1 } }

def scanStep (s : ScanState) : ScanAction → Option ScanState
  | .trigger root => some { s with scanWG := s.scanWG + 1, callers := s.callers ++ [root] }
  | .sendRoot k =>
    match s.callers[k]? with
    | none => none
    | some root =>
      if s.dirChan.length < c.bufferSize then
        some { s with dirChan := s.dirChan ++ [root], callers := s.callers.eraseIdx k }
      else none
  | .handRoot k j =>
    match s.callers[k]?, s.workers[j]?, s.dirChan with
    | some root, some .idle, [] =>
      some { s with callers := s.callers.eraseIdx k, workers := s.workers.set j (.opening root) }
    | _, _, _ => none
  | .receive i =>
    match s.workers[i]?, s.dirChan with
    | some .idle, dir :: queue =>
      some { s with dirChan := queue, workers := s.workers.set i (.opening dir) }
    | _, _ => none
  | .readDir i =>
    match s.workers[i]? with
    | some (.opening dir) =>
      match c.fs.readDir dir with
      | none => some { s with
          scanWG := s.scanWG - 1
          workers := s.workers.set i .idle
          counters := { s.counters with errorCount := s.counters.errorCount + 1 } }
      | some entries => some { s with
          workers := s.workers.set i (.listing dir entries)
          counters := { s.counters with dirsScanned := s.counters.dirsScanned + 1 } }
    | _ => none
  | .nextEntry i now =>
    match s.workers[i]? with
    | some (.listing _ []) =>
      some { s with scanWG := s.scanWG - 1, workers := s.workers.set i .idle }
    | some (.listing dir (entry :: rest)) => some (c.visitEntry s i dir entry rest now)
    | _ => none
  | .sendDir i =>
    match s.workers[i]? with
    | some (.sendingDir dir path rest) =>
      if s.dirChan.length < c.bufferSize then
        some { s with
          dirChan := s.dirChan ++ [path]
          workers := s.workers.set i (.listing dir rest) }
      else none
    | _ => none
  | .handDir i j =>
    match s.workers[i]?, s.workers[j]?, s.dirChan with
    | some (.sendingDir dir path rest), some .idle, [] =>
      some { s with workers := (s.workers.set i (.listing dir rest)).set j (.opening path) }
    | _, _, _ => none
  | .sendFile i =>
    match s.workers[i]? with
    | some (.sendingFile dir req rest) => some { s with
        fileChan := s.fileChan ++ [req]
        workers := s.workers.set i (.listing dir rest)
        counters := { s.counters with
          scannerBytes := s.counters.scannerBytes + req.size
          filesFound := s.counters.filesFound + 1 } }
    | _ => none

/-- `n` workers with a queue of announced roots. -/
def start (n : Nat) (roots : List String) : ScanState where
  dirChan := roots
  workers := List.replicate n .idle
  callers := []
  scanWG := roots.length
  fileChan := []
  counters :=
    { errorCount := 0, dirsScanned := 0, skippedItem := 0, scannerBytes := 0, filesFound := 0 }

def scanMachine (n : Nat) (roots : List String) : Machine ScanState ScanAction where
  start := start n roots
  step := c.scanStep

/-! ## What a step does -/

/-- The steps with all that they require and change. -/
inductive Steps (s : ScanState) : ScanAction → ScanState → Prop
  | trigger (root : String) : Steps s (.trigger root)
      { s with scanWG := s.scanWG + 1, callers := s.callers ++ [root] }
  | sendRoot (k : Nat) (root : String) : s.callers[k]? = some root →
      s.dirChan.length < c.bufferSize → Steps s (.sendRoot k)
        { s with dirChan := s.dirChan ++ [root], callers := s.callers.eraseIdx k }
  | handRoot (k j : Nat) (root : String) : s.callers[k]? = some root →
      s.workers[j]? = some .idle → s.dirChan = [] → Steps s (.handRoot k j)
        { s with callers := s.callers.eraseIdx k, workers := s.workers.set j (.opening root) }
  | receive (i : Nat) (dir : String) (queue : List String) : s.workers[i]? = some .idle →
      s.dirChan = dir :: queue → Steps s (.receive i)
        { s with dirChan := queue, workers := s.workers.set i (.opening dir) }
  | readFails (i : Nat) (dir : String) : s.workers[i]? = some (.opening dir) →
      c.fs.readDir dir = none → Steps s (.readDir i) { s with
        scanWG := s.scanWG - 1
        workers := s.workers.set i .idle
        counters := { s.counters with errorCount := s.counters.errorCount + 1 } }
  | readDir (i : Nat) (dir : String) (entries : List DirEntry) :
      s.workers[i]? = some (.opening dir) → c.fs.readDir dir = some entries →
      Steps s (.readDir i) { s with
        workers := s.workers.set i (.listing dir entries)
        counters := { s.counters with dirsScanned := s.counters.dirsScanned + 1 } }
  | finish (i : Nat) (now : Int) (dir : String) : s.workers[i]? = some (.listing dir []) →
      Steps s (.nextEntry i now)
        { s with scanWG := s.scanWG - 1, workers := s.workers.set i .idle }
  | nextEntry (i : Nat) (now : Int) (dir : String) (entry : DirEntry) (rest : List DirEntry) :
      s.workers[i]? = some (.listing dir (entry :: rest)) →
      Steps s (.nextEntry i now) (c.visitEntry s i dir entry rest now)
  | sendDir (i : Nat) (dir path : String) (rest : List DirEntry) :
      s.workers[i]? = some (.sendingDir dir path rest) → s.dirChan.length < c.bufferSize →
      Steps s (.sendDir i) { s with
        dirChan := s.dirChan ++ [path]
        workers := s.workers.set i (.listing dir rest) }
  | handDir (i j : Nat) (dir path : String) (rest : List DirEntry) :
      s.workers[i]? = some (.sendingDir dir path rest) → s.workers[j]? = some .idle →
      s.dirChan = [] → Steps s (.handDir i j)
        { s with workers := (s.workers.set i (.listing dir rest)).set j (.opening path) }
  | sendFile (i : Nat) (dir : String) (req : FileAnalyzerRequest) (rest : List DirEntry) :
      s.workers[i]? = some (.sendingFile dir req rest) → Steps s (.sendFile i) { s with
        fileChan := s.fileChan ++ [req]
        workers := s.workers.set i (.listing dir rest)
        counters := { s.counters with
          scannerBytes := s.counters.scannerBytes + req.size
          filesFound := s.counters.filesFound + 1 } }

variable {c} {s t : ScanState}

theorem steps_of_scanStep {a : ScanAction} (h : c.scanStep s a = some t) : c.Steps s a t := by
  cases a with
  | trigger root =>
    cases h
    exact .trigger root
  | sendRoot k =>
    simp only [scanStep] at h
    split at h
    · cases h
    · split at h
      · cases h
        exact .sendRoot k _ ‹_› ‹_›
      · cases h
  | handRoot k j =>
    simp only [scanStep] at h
    split at h
    · cases h
      exact .handRoot k j _ ‹_› ‹_› ‹_›
    · cases h
  | receive i =>
    simp only [scanStep] at h
    split at h
    · cases h
      exact .receive i _ _ ‹_› ‹_›
    · cases h
  | readDir i =>
    simp only [scanStep] at h
    split at h
    · split at h
      · cases h
        exact .readFails i _ ‹_› ‹_›
      · cases h
        exact .readDir i _ _ ‹_› ‹_›
    · cases h
  | nextEntry i now =>
    simp only [scanStep] at h
    split at h
    · cases h
      exact .finish i now _ ‹_›
    · cases h
      exact .nextEntry i now _ _ _ ‹_›
    · cases h
  | sendDir i =>
    simp only [scanStep] at h
    split at h
    · split at h
      · cases h
        exact .sendDir i _ _ _ ‹_› ‹_›
      · cases h
    · cases h
  | handDir i j =>
    simp only [scanStep] at h
    split at h
    · cases h
      exact .handDir i j _ _ _ ‹_› ‹_› ‹_›
    · cases h
  | sendFile i =>
    simp only [scanStep] at h
    split at h
    · cases h
      exact .sendFile i _ _ _ ‹_›
    · cases h

end Scanner

end ChatLab.Workers
