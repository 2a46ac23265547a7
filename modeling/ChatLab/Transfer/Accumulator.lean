import ChatLab.Transfer.Scanner
import ChatLab.Workers.FileTmpJob

/-!
# The file accumulator

The master writes the chunks of a file to `{tempDir}/{fileID}.tmp` and hashes
them on the way; the signature closes the file and publishes its location. A
handle keeps its own offset, so that two handles on one path would overwrite
each other. The state of `sha256.New` is the list of the bytes written to it.
-/

namespace ChatLab.Transfer

open Foundation Workers

abbrev Disk := OrderedMap String (List UInt8)

structure Handle where
  path : String
  offset : Nat
deriving DecidableEq

structure FileBuffer where
  file : Handle
  path : String
  effectiveMimeType : MIME
deriving DecidableEq

structure FileAccumulator where
  tempDir : String
  buffers : OrderedMap FileID FileBuffer
  hash : OrderedMap FileID (List UInt8)
deriving DecidableEq

inductive AccumulatorError
  | create (fileId : FileID)
  | noActiveBuffer (fileId : FileID)
  | write (fileId : FileID)
  | cannotFinalize (fileId : FileID)
  | nilHash
  | integrity (fileId : FileID) (got want : String)
deriving DecidableEq, Repr

/-- The answers of the master's file system: `write` is the number of bytes
that a failing write still stores. -/
structure IoOutcome where
  create : Bool
  write : Option Nat
deriving DecidableEq

def writeAt (content : List UInt8) (offset : Nat) (data : List UInt8) : List UInt8 :=
  content.take offset ++ List.replicate (offset - content.length) 0 ++ data ++
    content.drop (offset + data.length)

def Disk.write (disk : Disk) (file : Handle) (data : List UInt8) : Disk :=
  disk.insert file.path (writeAt ((disk.get? file.path).getD []) file.offset data)

section ProcessResponse

/-! The parameters are `filepath.Join` and the hexadecimal digest. -/

variable (join : String → String → String) (sha256 : List UInt8 → String)

/-- The map entries go in every case; a missing hash would be a nil pointer. -/
def finalize (a : FileAccumulator) (fileId : FileID) (expectedSha : String) :
    FileAccumulator × Except AccumulatorError (String × MIME) :=
  let cleaned := { a with buffers := a.buffers.erase fileId, hash := a.hash.erase fileId }
  match a.buffers.get? fileId, a.hash.get? fileId with
  | none, _ => (cleaned, .error (.cannotFinalize fileId))
  | some _, none => (cleaned, .error .nilHash)
  | some fileBuffer, some h =>
    let actualSha := sha256 h
    if actualSha ≠ expectedSha then
      (cleaned, .error (.integrity fileId actualSha expectedSha))
    else (cleaned, .ok (fileBuffer.path, fileBuffer.effectiveMimeType))

/-- `ProcessResponse`, with the location that it sends, if any. A response that
is an error has no case and is accepted. -/
def processResponse (a : FileAccumulator) (disk : Disk) (driveId : String) (fileId : FileID)
    (resp : FileDownloaderResponse) (io : IoOutcome) :
    FileAccumulator × Disk × Except AccumulatorError (Option TmpFileLocation) :=
  match resp.fileMetadata, resp.fileChunk, resp.fileSignature with
  | some m, _, _ =>
    let path := join a.tempDir (fileId ++ ".tmp")
    if io.create then
      let buffer : FileBuffer :=
        { file := { path := path, offset := 0 }, path := path,
          effectiveMimeType := m.effectiveMimeType }
      ({ a with buffers := a.buffers.insert fileId buffer, hash := a.hash.insert fileId [] },
        disk.insert path [], .ok none)
    else (a, disk, .error (.create fileId))
  | none, some data, _ =>
    match a.buffers.get? fileId, a.hash.get? fileId with
    | some fileBuffer, some h =>
      let stored := (io.write.map data.take).getD data
      let moved : FileBuffer :=
        { fileBuffer with
          file := { fileBuffer.file with offset := fileBuffer.file.offset + stored.length } }
      let disk := Disk.write disk fileBuffer.file stored
      let a := { a with buffers := a.buffers.insert fileId moved }
      if io.write.isSome then (a, disk, .error (.write fileId))
      else ({ a with hash := a.hash.insert fileId (h ++ data) }, disk, .ok none)
    | _, _ => (a, disk, .error (.noActiveBuffer fileId))
  | none, none, some sha =>
    match finalize sha256 a fileId sha with
    | (a, .error e) => (a, disk, .error e)
    | (a, .ok (tmpPath, mimeType)) =>
      (a, disk, .ok (some { driveId := driveId, fileId := fileId, tmpFilePath := tmpPath,
                            effectiveMimeType := mimeType }))
  | none, none, none => (a, disk, .ok none)

structure Receiving (a : FileAccumulator) (disk : Disk) (fileId : FileID) (data : List UInt8) :
    Prop where
  buffer : ∃ path mimeType, a.buffers.get? fileId =
      some { file := { path := path, offset := data.length }, path := path,
             effectiveMimeType := mimeType } ∧
    disk.get? path = some data
  hashed : a.hash.get? fileId = some data

/-- The accumulator has taken exactly these bytes of the file into the path. -/
structure Holding (a : FileAccumulator) (disk : Disk) (fileId : FileID) (path : String)
    (mimeType : MIME) (data : List UInt8) : Prop where
  buffer : a.buffers.get? fileId =
    some { file := { path := path, offset := data.length }, path := path,
           effectiveMimeType := mimeType }
  content : disk.get? path = some data
  hashed : a.hash.get? fileId = some data

theorem Holding.receiving {a : FileAccumulator} {disk : Disk} {fileId : FileID} {path : String}
    {mimeType : MIME} {data : List UInt8} (h : Holding a disk fileId path mimeType data) :
    Receiving a disk fileId data :=
  ⟨⟨path, mimeType, h.buffer, h.content⟩, h.hashed⟩

theorem Receiving.holding {a : FileAccumulator} {disk : Disk} {fileId : FileID}
    {data : List UInt8} (h : Receiving a disk fileId data) :
    ∃ path mimeType, Holding a disk fileId path mimeType data := by
  obtain ⟨⟨path, mimeType, hBuffer, hContent⟩, hHash⟩ := h
  exact ⟨path, mimeType, hBuffer, hContent, hHash⟩

theorem writeAt_end (content data : List UInt8) :
    writeAt content content.length data = content ++ data := by
  simp [writeAt]

section Calls

variable (driveId : String) {fileId : FileID} {io : IoOutcome} {a : FileAccumulator} {disk : Disk}

theorem holding_metadata (a : FileAccumulator) (disk : Disk) (fileId : FileID) (m : FileMetadata)
    (hCreate : io.create = true) :
    ∃ a' disk', processResponse join sha256 a disk driveId fileId { fileMetadata := some m } io =
        (a', disk', .ok none) ∧
      Holding a' disk' fileId (join a.tempDir (fileId ++ ".tmp")) m.effectiveMimeType [] := by
  simp only [processResponse, hCreate, if_true]
  refine ⟨_, _, rfl, ?_, ?_, ?_⟩
  · exact OrderedMap.get?_insert_self ..
  · exact OrderedMap.get?_insert_self ..
  · exact OrderedMap.get?_insert_self ..

theorem Holding.chunk {path : String} {mimeType : MIME} {taken : List UInt8}
    (h : Holding a disk fileId path mimeType taken) (data : List UInt8) (hWrite : io.write = none) :
    ∃ a' disk', processResponse join sha256 a disk driveId fileId (chunkResponse data) io =
        (a', disk', .ok none) ∧ Holding a' disk' fileId path mimeType (taken ++ data) := by
  simp only [processResponse, chunkResponse, h.buffer, h.hashed, hWrite]
  refine ⟨_, _, rfl, ?_, ?_, ?_⟩
  · rw [OrderedMap.get?_insert_self, List.length_append]
    rfl
  · rw [Disk.write, OrderedMap.get?_insert_self, h.content, Option.getD_some]
    exact congrArg some (writeAt_end taken data)
  · exact OrderedMap.get?_insert_self ..

theorem Holding.signature {path : String} {mimeType : MIME} {taken : List UInt8}
    (h : Holding a disk fileId path mimeType taken) :
    processResponse join sha256 a disk driveId fileId (signatureResponse (sha256 taken)) io =
      ({ a with buffers := a.buffers.erase fileId, hash := a.hash.erase fileId }, disk,
        .ok (some { driveId := driveId, fileId := fileId, tmpFilePath := path,
                    effectiveMimeType := mimeType })) := by
  simp [processResponse, signatureResponse, finalize, h.buffer, h.hashed]

end Calls

/-! ## Accepted responses -/

variable {join sha256} {a a' : FileAccumulator} {disk disk' : Disk} {driveId : String}
  {fileId : FileID} {io : IoOutcome} {out : Option TmpFileLocation}

theorem processResponse_metadata {m : FileMetadata}
    (h : processResponse join sha256 a disk driveId fileId { fileMetadata := some m } io =
      (a', disk', .ok out)) : out = none ∧ Receiving a' disk' fileId [] := by
  cases hCreate : io.create with
  | false =>
    simp only [processResponse, hCreate] at h
    cases h
  | true =>
    obtain ⟨_, _, hAccepted, hHolding⟩ :=
      holding_metadata join sha256 driveId a disk fileId m hCreate
    rw [hAccepted] at h
    cases h
    exact ⟨rfl, hHolding.receiving⟩

theorem processResponse_chunk {taken data : List UInt8} (hTaken : Receiving a disk fileId taken)
    (h : processResponse join sha256 a disk driveId fileId (chunkResponse data) io =
      (a', disk', .ok out)) : out = none ∧ Receiving a' disk' fileId (taken ++ data) := by
  obtain ⟨path, mimeType, hOld⟩ := hTaken.holding
  cases hWrite : io.write with
  | some n =>
    simp only [processResponse, chunkResponse, hOld.buffer, hOld.hashed, hWrite] at h
    cases h
  | none =>
    obtain ⟨_, _, hAccepted, hHolding⟩ := hOld.chunk join sha256 driveId data hWrite
    rw [hAccepted] at h
    cases h
    exact ⟨rfl, hHolding.receiving⟩

theorem finalize_fst (sha256 : List UInt8 → String) (a : FileAccumulator) (fileId : FileID)
    (sha : String) :
    (finalize sha256 a fileId sha).1 =
      { a with buffers := a.buffers.erase fileId, hash := a.hash.erase fileId } := by
  unfold finalize
  split
  · rfl
  · rfl
  · dsimp only
    split <;> rfl

theorem finalize_ok {sha path : String} {mimeType : MIME}
    (h : finalize sha256 a fileId sha = (a', .ok (path, mimeType))) :
    ∃ b hashed, a.buffers.get? fileId = some b ∧ a.hash.get? fileId = some hashed ∧
      sha256 hashed = sha ∧ path = b.path := by
  unfold finalize at h
  split at h
  · cases h
  · cases h
  · rename_i b hashed hBuffer hHash
    dsimp only at h
    split at h
    · cases h
    · rename_i hSha
      cases h
      exact ⟨b, hashed, hBuffer, hHash, not_not.mp hSha, rfl⟩

/-- A signature removes the entry whatever it answers, and publishes the file
of an entry whose digest it names. -/
theorem processResponse_finalize {resp : FileDownloaderResponse} {sha : String}
    {result : Except AccumulatorError (Option TmpFileLocation)}
    (hMetadata : resp.fileMetadata = none) (hChunk : resp.fileChunk = none)
    (hSignature : resp.fileSignature = some sha)
    (h : processResponse join sha256 a disk driveId fileId resp io = (a', disk', result)) :
    a'.buffers.get? fileId = none ∧ a'.hash.get? fileId = none ∧ disk' = disk ∧
      ∀ out, result = .ok out → ∃ location b hashed, out = some location ∧
        location.driveId = driveId ∧ location.fileId = fileId ∧ location.tmpFilePath = b.path ∧
        a.buffers.get? fileId = some b ∧ a.hash.get? fileId = some hashed ∧
        sha256 hashed = sha := by
  have hErased := finalize_fst sha256 a fileId sha
  have hGone : (finalize sha256 a fileId sha).1.buffers.get? fileId = none ∧
      (finalize sha256 a fileId sha).1.hash.get? fileId = none := by
    rw [hErased]
    exact ⟨OrderedMap.get?_erase_self .., OrderedMap.get?_erase_self ..⟩
  simp only [processResponse, hMetadata, hChunk, hSignature] at h
  split at h
  · rename_i hFinalize
    cases h
    rw [hFinalize] at hGone
    exact ⟨hGone.1, hGone.2, rfl, nofun⟩
  · rename_i path mimeType hFinalize
    cases h
    rw [hFinalize] at hGone
    refine ⟨hGone.1, hGone.2, rfl, ?_⟩
    rintro out ⟨⟩
    obtain ⟨b, hashed, hBuffer, hHash, hSha, rfl⟩ := finalize_ok hFinalize
    exact ⟨_, b, hashed, rfl, rfl, rfl, rfl, hBuffer, hHash, hSha⟩

theorem processResponse_signature {taken : List UInt8} {sha : String}
    (hTaken : Receiving a disk fileId taken)
    (h : processResponse join sha256 a disk driveId fileId (signatureResponse sha) io =
      (a', disk', .ok out)) :
    ∃ location, out = some location ∧ location.driveId = driveId ∧ location.fileId = fileId ∧
      disk'.get? location.tmpFilePath = some taken := by
  obtain ⟨⟨path, mimeType, hBuffer, hContent⟩, _⟩ := hTaken
  obtain ⟨_, _, rfl, hOk⟩ := processResponse_finalize rfl rfl rfl h
  obtain ⟨location, b, _, rfl, hDrive, hFile, hPath, hEntry, _⟩ := hOk out rfl
  obtain rfl := Option.some.inj (hBuffer.symm.trans hEntry)
  exact ⟨location, rfl, hDrive, hFile, hPath ▸ hContent⟩

theorem processResponse_error {e : FileError}
    (h : processResponse join sha256 a disk driveId fileId { fileError := some e } io =
      (a', disk', .ok out)) : out = none := by
  cases h
  rfl

end ProcessResponse

end ChatLab.Transfer
