import ChatLab.Domain

/-!
# The scanner's side of a download

`Process` answers one request with a sequence of responses that carry no file
identifier: metadata, chunks and a signature, or one error, or a sequence that
just stops where the source returns without a message. The file system is seen
through the answers it gives to the calls of `Process`; cancelled contexts are
left out.
-/

namespace ChatLab.Transfer

/-! ## Messages -/

structure FileDownloaderRequest where
  driveId : String
  fileId : FileID
  path : String
deriving DecidableEq

structure FileMetadata where
  rawMimeType : String
  effectiveMimeType : MIME
  size : UInt64
deriving DecidableEq

inductive ErrorCode
  | invalidFilePath | notFound | accessDenied | notFile | fileTooLarge
deriving DecidableEq, Repr

structure FileError where
  message : String
  errorCode : ErrorCode
deriving DecidableEq

structure FileDownloaderResponse where
  fileMetadata : Option FileMetadata := none
  fileChunk : Option (List UInt8) := none
  fileSignature : Option String := none
  fileError : Option FileError := none
deriving DecidableEq

inductive Control
  | metadata (rawMimeType effectiveMimeType : String) (size : UInt64)
  | chunk (data : List UInt8)
  | signature (sha256 : String)
  | error (message : String) (code : ErrorCode)
deriving DecidableEq

structure PbRequest where
  fileId : String
  path : String
deriving DecidableEq

def fromPbRequest (req : PbRequest) : FileDownloaderRequest where
  driveId := ""
  fileId := req.fileId
  path := req.path

def toPbResponse (resp : FileDownloaderResponse) : Option Control :=
  match resp.fileMetadata, resp.fileChunk, resp.fileSignature, resp.fileError with
  | some m, _, _, _ => some (.metadata m.rawMimeType m.effectiveMimeType.text m.size)
  | none, some data, _, _ => some (.chunk data)
  | none, none, some sha256, _ => some (.signature sha256)
  | none, none, none, some e => some (.error e.message e.errorCode)
  | none, none, none, none => none

def fromPbResponse : Option Control → FileDownloaderResponse
  | some (.metadata raw effective size) =>
    { fileMetadata := some { rawMimeType := raw, effectiveMimeType := MIME.toMIME effective,
                             size := size } }
  | some (.chunk data) => { fileChunk := some data }
  | some (.signature sha256) => { fileSignature := some sha256 }
  | some (.error message code) => { fileError := some { message := message, errorCode := code } }
  | none => {}

def FileDownloaderResponse.isLast (resp : FileDownloaderResponse) : Bool :=
  resp.fileSignature.isSome || resp.fileError.isSome

/-- The tags `required,max=1024` on the identifier and the path. -/
def validRequest (request : FileDownloaderRequest) : Bool :=
  request.fileId ≠ "" && request.fileId.length ≤ 1024 &&
    request.path ≠ "" && request.path.length ≤ 1024

/-! ## `Process` -/

structure FileInfo where
  size : UInt64
  isDir : Bool
  isRegular : Bool
deriving DecidableEq

inductive ReadError
  | eof | failed
deriving DecidableEq, Repr

/-- The answers of the file system to one run of `Process`. `sniff` is the read
of the first 512 bytes, `reads` are the reads without an error, and `lastRead`
is the read that returns one, with the bytes it still delivers. -/
structure FileView where
  stat : Option FileInfo
  opens : Bool
  sniff : Option (List UInt8)
  seeks : Bool
  reads : List (List UInt8)
  lastRead : List UInt8 × ReadError

section Process

variable (detect : List UInt8 → String) (sha256 : List UInt8 → String) (maxFileSizeMb : Int)

def errorResponse (message : String) (code : ErrorCode) : FileDownloaderResponse :=
  { fileError := some { message := message, errorCode := code } }

/-- The sniff buffer has 512 bytes, also where the file has fewer. -/
def metadataResponse (info : FileInfo) (sniff : List UInt8) : FileDownloaderResponse :=
  let rawMimeType := detect (sniff ++ List.replicate (512 - sniff.length) 0)
  { fileMetadata := some { rawMimeType := rawMimeType,
                           effectiveMimeType := MIME.toMIME rawMimeType, size := info.size } }

def chunkResponse (data : List UInt8) : FileDownloaderResponse := { fileChunk := some data }

def signatureResponse (sha : String) : FileDownloaderResponse := { fileSignature := some sha }

/-- The chunks pushed: a read of no bytes pushes nothing. -/
def FileView.chunks (view : FileView) : List (List UInt8) :=
  (view.reads ++ [view.lastRead.1]).filter fun data => data.length > 0

def streamFile (view : FileView) : List FileDownloaderResponse × List UInt8 :=
  let ending :=
    match view.lastRead.2 with
    | .eof => [signatureResponse (sha256 view.chunks.flatten)]
    | .failed => []
  (view.chunks.map chunkResponse ++ ending, (view.reads ++ [view.lastRead.1]).flatten)

/-- The responses that `Process` pushes, and the bytes of the file that it reads
for them. -/
def process (request : FileDownloaderRequest) (view : FileView) :
    List FileDownloaderResponse × List UInt8 :=
  if validRequest request then
    match view.stat with
    | none => ([errorResponse ("file not found at: " ++ request.path) .notFound], [])
    | some info =>
      let maxFileSize := UInt64.ofInt (maxFileSizeMb * mb)
      if info.size > maxFileSize then
        ([errorResponse ("file is too large: " ++ toString info.size.toNat ++
          " bytes (limit is " ++ toString maxFileSize.toNat ++ ")") .fileTooLarge], [])
      else if info.isDir || !info.isRegular then
        ([errorResponse ("entry" ++ request.path ++ " is not a file") .notFile], [])
      else if view.opens then
        -- a failed sniff and a failed seek return without a message
        match view.sniff with
        | none => ([], [])
        | some sniff =>
          if view.seeks then
            let (rest, bytes) := streamFile sha256 view
            (metadataResponse detect info sniff :: rest, bytes)
          else ([metadataResponse detect info sniff], [])
      else ([errorResponse ("access denied to " ++ request.path) .accessDenied], [])
  else ([errorResponse "Invalid path parameters" .invalidFilePath], [])

inductive Transcript (bytes : List UInt8) : List FileDownloaderResponse → Prop
  | silent : Transcript bytes []
  | refused (e : FileError) : Transcript bytes [{ fileError := some e }]
  | broken (m : FileMetadata) (chunks : List (List UInt8)) :
      Transcript bytes ({ fileMetadata := some m } :: chunks.map chunkResponse)
  | complete (m : FileMetadata) (chunks : List (List UInt8)) (h : chunks.flatten = bytes) :
      Transcript bytes
        ({ fileMetadata := some m } :: (chunks.map chunkResponse ++ [signatureResponse (sha256 bytes)]))

theorem FileView.flatten_chunks (view : FileView) :
    view.chunks.flatten = (view.reads ++ [view.lastRead.1]).flatten := by
  rw [FileView.chunks]
  induction view.reads ++ [view.lastRead.1] with
  | nil => rfl
  | cons data reads ih =>
    rw [List.filter_cons, List.flatten_cons, ← ih]
    split
    · rw [List.flatten_cons]
    · rename_i hEmpty
      have hNil : data = [] := by simpa using hEmpty
      rw [hNil, List.nil_append]

theorem streamFile_transcript (m : FileMetadata) (view : FileView) :
    Transcript sha256 (streamFile sha256 view).2
      ({ fileMetadata := some m } :: (streamFile sha256 view).1) := by
  rw [streamFile]
  cases view.lastRead.2 with
  | eof =>
    dsimp only
    rw [view.flatten_chunks]
    exact Transcript.complete m view.chunks view.flatten_chunks
  | failed =>
    dsimp only
    rw [List.append_nil]
    exact Transcript.broken m view.chunks

theorem streamFile_roundTrip (view : FileView) {resp : FileDownloaderResponse}
    (h : resp ∈ (streamFile sha256 view).1) : fromPbResponse (toPbResponse resp) = resp := by
  rw [streamFile] at h
  obtain h | h := List.mem_append.mp h
  · obtain ⟨data, _, rfl⟩ := List.mem_map.mp h
    rfl
  · split at h
    · rw [List.mem_singleton.mp h]
      rfl
    · cases h

theorem process_transcript (request : FileDownloaderRequest) (view : FileView) :
    Transcript sha256 (process detect sha256 maxFileSizeMb request view).2
      (process detect sha256 maxFileSizeMb request view).1 := by
  rw [process]
  split
  · split
    · exact Transcript.refused _
    · dsimp only
      split
      · exact Transcript.refused _
      · split
        · exact Transcript.refused _
        · split
          · split
            · exact Transcript.silent
            · split
              · exact streamFile_transcript sha256 _ view
              · exact Transcript.broken _ []
          · exact Transcript.refused _
  · exact Transcript.refused _

/-- What the master decodes is what the scanner pushed; the MIME type travels as
its text and is one that `ToMIME` returns. -/
theorem fromPbResponse_toPbResponse {request : FileDownloaderRequest} {view : FileView}
    {resp : FileDownloaderResponse}
    (h : resp ∈ (process detect sha256 maxFileSizeMb request view).1) :
    fromPbResponse (toPbResponse resp) = resp := by
  have hError : ∀ message code, resp ∈ [errorResponse message code] →
      fromPbResponse (toPbResponse resp) = resp := by
    intro message code hMem
    rw [List.mem_singleton.mp hMem]
    rfl
  have hMetadata : ∀ info sniff, fromPbResponse (toPbResponse (metadataResponse detect info sniff)) =
      metadataResponse detect info sniff := by
    intro info sniff
    simp only [metadataResponse, toPbResponse, fromPbResponse, MIME.toMIME_text_toMIME]
  rw [process] at h
  split at h
  · split at h
    · exact hError _ _ h
    · dsimp only at h
      split at h
      · exact hError _ _ h
      · split at h
        · exact hError _ _ h
        · split at h
          · split at h
            · cases h
            · split at h
              · obtain rfl | h := List.mem_cons.mp h
                · exact hMetadata _ _
                · exact streamFile_roundTrip sha256 view h
              · rw [List.mem_singleton.mp h]
                exact hMetadata _ _
          · exact hError _ _ h
  · exact hError _ _ h

end Process

end ChatLab.Transfer
