import ChatLab.Grpc.SpecialistServers
import ChatLab.Runtime.Coordinator
import ChatLab.Transfer.Integrity

/-!
# From the scanner's chunks to a specialist

The accumulator publishes the path of a file when its signature is accepted;
`Broadcast` reads that path, perhaps much later, and streams what it finds to
the specialists of the type. In between, other files are transferred into the
same directory. The bytes that a specialist inspects are followed here from the
chunks on.
-/

namespace ChatLab.Transfer

open Foundation Workers
open Grpc
open Grpc.SpecialistServers

/-- The request of `processJobs` for a published file. -/
def specialistRequest (location : TmpFileLocation) : SpecialistRequest where
  fileId := location.fileId
  path := location.tmpFilePath
  effectiveMimeType := location.effectiveMimeType

/-- What `os.Stat` and `os.ReadFile` answer for a path. -/
def diskView (disk : Disk) (path : String) : Runtime.FileView where
  stat := (disk.get? path).map fun data => (data.length : Int)
  data := disk.get? path

/-- The metadata that a goroutine of `Broadcast` makes, with a new identifier. -/
def broadcastMetadata (messageId : String) (req : SpecialistRequest) :
    SpecialistClient.Metadata where
  messageId := messageId
  fileName := req.path
  effectiveMimeType := req.effectiveMimeType.text

section Published

variable {sha256 : List UInt8 → String} {tempDir : String} {disk disk' : Disk}
  {s u : TransferState} {a' : FileAccumulator} {c : Call} {location : TmpFileLocation}

/-- Only a signature publishes a file. -/
theorem signature_of_published {join : String → String → String} {a : FileAccumulator}
    {driveId : String} {fileId : FileID} {resp : FileDownloaderResponse} {io : IoOutcome}
    (h : processResponse join sha256 a disk driveId fileId resp io =
      (a', disk', .ok (some location))) :
    resp.fileMetadata = none ∧ resp.fileChunk = none ∧ ∃ sha, resp.fileSignature = some sha := by
  unfold processResponse at h
  split at h
  · dsimp only at h
    split at h
    · cases h
    · cases h
  · split at h
    · dsimp only at h
      split at h
      · cases h
      · cases h
    · cases h
  · rename_i sha hMetadata hChunk hSignature
    exact ⟨hMetadata, hChunk, sha, hSignature⟩
  · cases h

theorem TransferState.Sound.published (hs : s.Sound tempDir) (hOrderly : Orderly s c)
    (hRun : c.run sha256 s.accumulator s.disk = (a', disk', .ok (some location))) :
    location.tmpFilePath = tmpPath tempDir c.fileId ∧
      disk'.get? location.tmpFilePath = some (acceptedChunks c.fileId s.calls).flatten ∧
      c.resp.fileSignature = some (sha256 (acceptedChunks c.fileId s.calls).flatten) := by
  obtain ⟨result, hResponse, hAnswer⟩ := Call.run_eq hRun
  obtain rfl := hAnswer _ rfl
  obtain ⟨hMetadata, hChunk, sha, hSignature⟩ := signature_of_published hResponse
  obtain ⟨_, _, rfl, hOk⟩ := processResponse_finalize hMetadata hChunk hSignature hResponse
  obtain ⟨found, b, hashed, hFound, _, _, hPath, hBuffer, hHashed, hSha⟩ := hOk _ rfl
  obtain rfl := Option.some.inj hFound
  -- the entry holds what was accepted since its metadata
  have hContinues : s.Continues c.fileId := hOrderly.2.resolve_left (by simp [hMetadata])
  obtain ⟨⟨path, mimeType, hEntry, hContent⟩, hDigest⟩ :=
    hs.receiving c.fileId hContinues (by simp [hBuffer])
  obtain rfl := Option.some.inj (hBuffer.symm.trans hEntry)
  obtain rfl := Option.some.inj (hHashed.symm.trans hDigest)
  refine ⟨hPath.trans (hs.path _ _ hBuffer).2.1, ?_, ?_⟩
  · rw [hPath]
    exact hContent
  · rw [hSignature, hSha]

/-- Calls for other files leave a file alone. -/
theorem file_kept {fileId : FileID} (hPlain : PlainId fileId) {later : List Call}
    (hs : s.Sound tempDir)
    (h : ((transferMachine sha256 tempDir disk).restrict Orderly).exec s later = some u)
    (hOthers : ∀ d ∈ later, d.fileId ≠ fileId) :
    u.disk.get? (tmpPath tempDir fileId) = s.disk.get? (tmpPath tempDir fileId) := by
  induction later generalizing s with
  | nil => rw [← Option.some.inj h]
  | cons d later ih =>
    obtain ⟨t, hStep, hRest⟩ := Option.bind_eq_some_iff.mp h
    simp only [Machine.restrict] at hStep
    split at hStep
    · rename_i hOrderly
      rw [ih (hs.step hOrderly hStep) hRest fun e he => hOthers e (List.mem_cons_of_mem _ he)]
      obtain ⟨a, disk', answer, hRun⟩ : ∃ a disk' answer,
          d.run sha256 s.accumulator s.disk = (a, disk', answer) := ⟨_, _, _, rfl⟩
      obtain ⟨_, _, hDisk⟩ :=
        hs.frame hOrderly.1 hRun hPlain (Ne.symm (hOthers d List.mem_cons_self))
      simp only [transferMachine, transferStep, hRun] at hStep
      rw [← Option.some.inj hStep]
      exact hDisk
    · cases hStep

theorem checkRequest_data {m : Runtime.Coordinator} {view : Runtime.FileView}
    {req : SpecialistRequest} {data : List UInt8} (h : m.checkRequest view req = .ok data) :
    view.data = some data := by
  unfold Runtime.Coordinator.checkRequest at h
  split at h
  · split at h
    · cases h
    · split at h
      · cases h
      · split at h
        · cases h
        · rename_i hData
          rw [hData, Except.ok.inj h]
  · cases h

end Published

/-- A file that was published, read by `Broadcast` after any calls for other
files: the specialist inspects exactly the chunks that were accepted for the
file, whose digest is the scanner's signature, under the path of the file. A
failure on the way gives an error and never a result for a part of the data. -/
theorem specialist_inspects_download {l : Libraries} {sha256 : List UInt8 → String}
    {tempDir : String} {disk : Disk} {s u : TransferState} {c : Call} {later : List Call}
    {location : TmpFileLocation}
    (h : (transferMachine sha256 tempDir disk).Reaches Orderly s)
    (hPublished : (c.run sha256 s.accumulator s.disk).2.2 = .ok (some location))
    (hRun : ((transferMachine sha256 tempDir disk).restrict Orderly).exec s (c :: later) = some u)
    (hOthers : ∀ d ∈ later, d.fileId ≠ c.fileId) {m : Runtime.Coordinator} {data : List UInt8}
    (hRead : m.checkRequest (diskView u.disk location.tmpFilePath) (specialistRequest location) =
      .ok data)
    (specialist : Specialist) (messageId : String) (stream : SpecialistClient.AnalyzeStream) :
    data = (acceptedChunks c.fileId s.calls).flatten ∧
    c.resp.fileSignature = some (sha256 data) ∧
    (Relays stream (specialist.analyzeStream l) → ∀ resp,
      (SpecialistClient.analyze (.ok stream)
        { metadata := some (broadcastMetadata messageId (specialistRequest location)),
          chunk := data }).1 = .ok resp →
      ∃ response, specialist.inspect l location.tmpFilePath data = .ok response ∧
        resp = SpecialistClient.fromPbSpecialistResponse response) ∧
    (Reliable stream (specialist.analyzeStream l) →
      (SpecialistClient.analyze (.ok stream)
        { metadata := some (broadcastMetadata messageId (specialistRequest location)),
          chunk := data }).1 =
      (clientAnswer (specialist.inspect l location.tmpFilePath data)).map
        SpecialistClient.fromPbSpecialistResponse) := by
  have hs := sound_of_reaches h
  obtain ⟨t, hStep, hLater⟩ := Option.bind_eq_some_iff.mp hRun
  simp only [Machine.restrict] at hStep
  split at hStep
  · rename_i hOrderly
    obtain ⟨a', disk', answer, hCall⟩ : ∃ a' disk' answer,
        c.run sha256 s.accumulator s.disk = (a', disk', answer) := ⟨_, _, _, rfl⟩
    rw [hCall] at hPublished
    obtain rfl := hPublished
    obtain ⟨hPath, hContent, hSignature⟩ := hs.published hOrderly hCall
    have hKept := file_kept hOrderly.1 (hs.step hOrderly hStep) hLater hOthers
    have hWritten : t.disk = disk' := by
      simp only [transferMachine, transferStep, hCall] at hStep
      rw [← Option.some.inj hStep]
    -- the file is still what was published when it is read
    have hFound : u.disk.get? location.tmpFilePath = some data := checkRequest_data hRead
    rw [hPath, hKept, hWritten, ← hPath, hContent] at hFound
    obtain rfl := Option.some.inj hFound
    refine ⟨rfl, hSignature, ?_, ?_⟩
    · intro hRelays resp hResp
      exact inspect_of_analyze hRelays hResp
    · intro hReliable
      exact analyze_of_reliable hReliable _ _
  · cases hStep

/-! The file of the interleaved transfers, read while a third one is on its way. -/

def sampleLibraries : Libraries where
  fitzOpen data :=
    if data = [1, 2] then
      .ok { title := some "", author := none, pages := [.ok "one", .ok "two"]
            pages_lt := by decide }
    else .error "cannot open broken document"
  transcribe _ := .error "not a recording"
  isSpace c := c = ' '

def sampleStream : SpecialistClient.AnalyzeStream where
  send _ := none
  closeAndRecv sent := clientAnswer (Specialist.pdf.analyzeStream sampleLibraries sent)

def sampleCoordinator : Runtime.Coordinator where
  specialists := .empty
  maxFileSizeMB := 1

def sampleLocation : TmpFileLocation where
  fileId := sampleId 1
  driveId := "drive"
  tmpFilePath := tmpPath "/tmp/" (sampleId 1)
  effectiveMimeType := .textPlain

def sampleLater : List Call := [sampleCall 3 sampleMetadata none]

def sampleSigned : Call := sampleCall 1 (signatureResponse "sum") none

def sampleRead (u : TransferState) : Except Runtime.BroadcastError (List UInt8) :=
  sampleCoordinator.checkRequest (diskView u.disk sampleLocation.tmpFilePath)
    (specialistRequest sampleLocation)

theorem eq_ok_of_toOption {ε α : Type} {x : Except ε α} {a : α} (h : x.toOption = some a) :
    x = .ok a := by
  cases x with
  | error e => cases h
  | ok b => rw [Option.some.inj h]

theorem specialist_inspects_sample :
    (SpecialistClient.analyze (.ok sampleStream)
      { metadata := some (broadcastMetadata "m" (specialistRequest sampleLocation)),
        chunk := [1, 2] }).1 =
      .ok { oneOf := some (.document
        { title := sampleLocation.tmpFilePath, author := "Unknown", pageCount := 2,
          language := "fr",
          pages := [{ number := 1, content := "one" }, { number := 2, content := "two" }] }) } := by
  have hReaches := Machine.reaches_after_restrict (transferMachine sampleDigest "/tmp/" .empty)
    Orderly interleavedCalls
  have hFacts : (sampleSigned.run sampleDigest interleavedState.accumulator
        interleavedState.disk).2.2.toOption = some (some sampleLocation) ∧
      (((transferMachine sampleDigest "/tmp/" .empty).restrict Orderly).exec interleavedState
        (sampleSigned :: sampleLater)).map (fun u => (sampleRead u).toOption) =
          some (some [1, 2]) := by
    decide +kernel
  obtain ⟨hSigned, hRead⟩ := hFacts
  obtain ⟨u, hRun, hData⟩ := Option.map_eq_some_iff.mp hRead
  have hReliable : Reliable sampleStream (Specialist.pdf.analyzeStream sampleLibraries) :=
    ⟨fun _ => rfl, fun _ => rfl⟩
  obtain ⟨_, _, _, hAnswer⟩ := specialist_inspects_download hReaches
    (eq_ok_of_toOption hSigned) hRun (by decide) (eq_ok_of_toOption hData) .pdf "m" sampleStream
  rw [hAnswer hReliable]
  rfl

end ChatLab.Transfer
