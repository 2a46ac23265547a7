import ChatLab.Transfer.Accumulator

/-!
# What one request is answered with

A well-formed answer is a single error, or metadata, non-empty chunks and one
closing message; the sender of the stream stops at the closing message. Once
the file is open, `Process` returns from a failed read or seek without such a
message. A file that is read to its end arrives as it was.

The reads of a file come to an end here: a chunk size of zero, with which every
read returns no bytes and no error, and a source that never ends are outside of
the model.
-/

namespace ChatLab.Transfer

open Foundation Workers

/-! ## Answers -/

inductive Answer : List FileDownloaderResponse → Prop
  | refused (e : FileError) : Answer [{ fileError := some e }]
  | streamed (m : FileMetadata) {chunks : List (List UInt8)} {last : FileDownloaderResponse}
      (hChunks : ∀ c ∈ chunks, c ≠ [])
      (hLast : (∃ sha, last = signatureResponse sha) ∨ ∃ e, last = { fileError := some e }) :
      Answer ({ fileMetadata := some m } :: (chunks.map chunkResponse ++ [last]))

/-- The sender of `Download`: what it sends of the messages it finds, and what
it leaves behind when it stops. -/
def senderLoop : List FileDownloaderResponse →
    List FileDownloaderResponse × Option (List FileDownloaderResponse)
  | [] => ([], none)
  | response :: rest =>
    if response.isLast then ([response], some rest)
    else (response :: (senderLoop rest).1, (senderLoop rest).2)

/-- The messages are an answer, and the sender stops exactly behind them
whatever is pushed later. -/
def Answered (responses : List FileDownloaderResponse) : Prop :=
  Answer responses ∧ ∀ later, senderLoop (responses ++ later) = (responses, some later)

theorem senderLoop_append {body : List FileDownloaderResponse}
    (h : ∀ response ∈ body, response.isLast = false) (later : List FileDownloaderResponse) :
    senderLoop (body ++ later) = (body ++ (senderLoop later).1, (senderLoop later).2) := by
  induction body with
  | nil => rfl
  | cons response rest ih =>
    rw [List.cons_append, senderLoop, h response List.mem_cons_self,
      ih fun r hr => h r (List.mem_cons_of_mem _ hr)]
    rfl

theorem isLast_of_body (m : FileMetadata) (chunks : List (List UInt8)) :
    ∀ response ∈ ({ fileMetadata := some m } : FileDownloaderResponse) :: chunks.map chunkResponse,
      response.isLast = false := by
  intro response hResponse
  obtain rfl | hResponse := List.mem_cons.mp hResponse
  · rfl
  · obtain ⟨data, _, rfl⟩ := List.mem_map.mp hResponse
    rfl

theorem Answer.answered {responses : List FileDownloaderResponse} (h : Answer responses) :
    Answered responses := by
  refine ⟨h, ?_⟩
  intro later
  cases h with
  | refused e => rfl
  | @streamed m chunks last _ hLast =>
    have hStop : last.isLast = true := by
      obtain ⟨sha, rfl⟩ | ⟨e, rfl⟩ := hLast
      · rfl
      · rfl
    have hSplit : ({ fileMetadata := some m } : FileDownloaderResponse) ::
        (chunks.map chunkResponse ++ [last]) ++ later =
        (({ fileMetadata := some m } : FileDownloaderResponse) :: chunks.map chunkResponse) ++
          (last :: later) := by simp
    rw [hSplit, senderLoop_append (isLast_of_body m chunks), senderLoop, if_pos hStop]
    rfl

theorem not_answered_of_body {responses : List FileDownloaderResponse}
    (h : ∀ response ∈ responses, response.isLast = false) : ¬ Answered responses := by
  rintro ⟨_, hStops⟩
  have hLoop := hStops []
  rw [senderLoop_append h] at hLoop
  cases (Prod.mk.inj hLoop).2

/-! ## Requests that reach the file -/

section Process

variable (detect : List UInt8 → String) (sha256 : List UInt8 → String) (maxFileSizeMb : Int)

/-- The request passes every check and the file is opened. -/
def Opens (request : FileDownloaderRequest) (view : FileView) : Prop :=
  validRequest request = true ∧ view.opens = true ∧ ∃ info, view.stat = some info ∧
    ¬ info.size > UInt64.ofInt (maxFileSizeMb * mb) ∧ (info.isDir || !info.isRegular) = false

/-- After the file was opened, the first read, the seek or a later read fails.
The first read of an empty file fails with the end of the file. -/
def Abandons (request : FileDownloaderRequest) (view : FileView) : Prop :=
  Opens maxFileSizeMb request view ∧
    (view.sniff = none ∨ view.seeks = false ∨ view.lastRead.2 = .failed)

theorem FileView.chunks_ne_nil {view : FileView} {c : List UInt8} (h : c ∈ view.chunks) :
    c ≠ [] := by
  rintro rfl
  have hLength := (List.mem_filter.mp h).2
  simp at hLength

theorem process_opened {request : FileDownloaderRequest} {view : FileView}
    (h : Opens maxFileSizeMb request view) :
    ∃ info, view.stat = some info ∧
      (view.sniff = none → process detect sha256 maxFileSizeMb request view = ([], [])) ∧
      ∀ sniff, view.sniff = some sniff →
        process detect sha256 maxFileSizeMb request view =
          if view.seeks then
            (metadataResponse detect info sniff :: (streamFile sha256 view).1,
              (streamFile sha256 view).2)
          else ([metadataResponse detect info sniff], []) := by
  obtain ⟨hValid, hOpens, info, hStat, hSize, hRegular⟩ := h
  refine ⟨info, hStat, ?_, ?_⟩
  · intro hSniff
    simp only [process, hValid, if_true, hStat, hSize, if_false, hRegular, Bool.false_eq_true,
      hOpens, hSniff]
  · intro sniff hSniff
    simp only [process, hValid, if_true, hStat, hSize, if_false, hRegular, Bool.false_eq_true,
      hOpens, hSniff]

theorem process_refused {request : FileDownloaderRequest} {view : FileView}
    (h : ¬ Opens maxFileSizeMb request view) :
    ∃ e, process detect sha256 maxFileSizeMb request view = ([{ fileError := some e }], []) := by
  rw [process]
  split
  · rename_i hValid
    split
    · exact ⟨_, rfl⟩
    · rename_i info hStat
      dsimp only
      split
      · exact ⟨_, rfl⟩
      · rename_i hSize
        split
        · exact ⟨_, rfl⟩
        · rename_i hRegular
          split
          · rename_i hOpens
            exact absurd ⟨hValid, hOpens, info, hStat, hSize, Bool.eq_false_iff.mpr hRegular⟩ h
          · exact ⟨_, rfl⟩
  · exact ⟨_, rfl⟩

/-- No message of an abandoned file stops the sender. -/
theorem isLast_of_abandons {request : FileDownloaderRequest} {view : FileView}
    (h : Abandons maxFileSizeMb request view) :
    ∀ response ∈ (process detect sha256 maxFileSizeMb request view).1, response.isLast = false := by
  obtain ⟨hOpens, hFails⟩ := h
  obtain ⟨info, _, hSilent, hProcess⟩ := process_opened detect sha256 maxFileSizeMb hOpens
  cases hSniff : view.sniff with
  | none =>
    rw [hSilent hSniff]
    intro response hResponse
    cases hResponse
  | some sniff =>
    rw [hProcess sniff hSniff]
    cases hSeeks : view.seeks with
    | false => exact isLast_of_body _ []
    | true =>
      have hLast : view.lastRead.2 = .failed := by simpa [hSniff, hSeeks] using hFails
      simp only [streamFile, hLast, List.append_nil]
      exact isLast_of_body _ view.chunks

theorem answer_of_not_abandons {request : FileDownloaderRequest} {view : FileView}
    (h : ¬ Abandons maxFileSizeMb request view) :
    Answer (process detect sha256 maxFileSizeMb request view).1 := by
  by_cases hOpens : Opens maxFileSizeMb request view
  · obtain ⟨info, _, _, hProcess⟩ := process_opened detect sha256 maxFileSizeMb hOpens
    have hReads : ¬ (view.sniff = none ∨ view.seeks = false ∨ view.lastRead.2 = .failed) :=
      fun hFails => h ⟨hOpens, hFails⟩
    rw [not_or, not_or] at hReads
    obtain ⟨hSniff, hSeeks, hLast⟩ := hReads
    obtain ⟨sniff, hSniff⟩ := Option.ne_none_iff_exists'.mp hSniff
    rw [hProcess sniff hSniff, if_pos (Bool.eq_true_of_not_eq_false hSeeks)]
    cases hEnd : view.lastRead.2 with
    | failed => exact absurd hEnd hLast
    | eof =>
      simp only [streamFile, hEnd]
      exact .streamed _ (fun c => FileView.chunks_ne_nil) (.inl ⟨_, rfl⟩)
  · obtain ⟨e, hProcess⟩ := process_refused detect sha256 maxFileSizeMb hOpens
    rw [hProcess]
    exact .refused e

/-- A request gets a well-formed answer of its own unless the opened file
cannot be read or rewound. -/
theorem process_answered_iff (request : FileDownloaderRequest) (view : FileView) :
    Answered (process detect sha256 maxFileSizeMb request view).1 ↔
      ¬ Abandons maxFileSizeMb request view := by
  constructor
  · intro hAnswered hAbandons
    exact not_answered_of_body (isLast_of_abandons detect sha256 maxFileSizeMb hAbandons) hAnswered
  · intro hReads
    exact (answer_of_not_abandons detect sha256 maxFileSizeMb hReads).answered

end Process

/-- An empty file: the first read returns the end of the file. -/
def emptyView : FileView :=
  { stat := some { size := 0, isDir := false, isRegular := true }, opens := true, sniff := none,
    seeks := true, reads := [], lastRead := ([], .eof) }

def textRequest : FileDownloaderRequest := { driveId := "", fileId := "f", path := "/f" }

theorem emptyFile_unanswered :
    ¬ ∀ (detect sha256 : List UInt8 → String) (maxFileSizeMb : Int)
      (request : FileDownloaderRequest) (view : FileView),
      Answered (process detect sha256 maxFileSizeMb request view).1 := by
  intro hAlways
  have hAnswered := hAlways (fun _ => "") (fun _ => "") 1 textRequest emptyView
  have hSilent : (process (fun _ => "") (fun _ => "") 1 textRequest emptyView).1 = [] := by
    decide +kernel
  rw [hSilent] at hAnswered
  exact not_answered_of_body (by simp) hAnswered

/-! ## A file that is read to its end -/

def IoOutcome.success : IoOutcome := { create := true, write := none }

section Arrival

variable (detect : List UInt8 → String) (sha256 : List UInt8 → String) (maxFileSizeMb : Int)
  (join : String → String → String) (driveId : String) (fileId : FileID)

/-- The loop of `handleDownload` over the messages of one stream, with the
locations that are published; it leaves at the first error. -/
def receiveAll : FileAccumulator → Disk → List FileDownloaderResponse →
    Except AccumulatorError (FileAccumulator × Disk × List TmpFileLocation)
  | a, disk, [] => .ok (a, disk, [])
  | a, disk, resp :: rest =>
    match processResponse join sha256 a disk driveId fileId resp .success with
    | (_, _, .error e) => .error e
    | (a, disk, .ok out) =>
      match receiveAll a disk rest with
      | .error e => .error e
      | .ok (a, disk, locations) => .ok (a, disk, out.toList ++ locations)

/-- The file has this content and every call on it succeeds: the first read
returns up to 512 bytes, the later ones return from one byte up to the chunk
size, the last of them perhaps none, with the end of the file. -/
structure FileView.Reads (view : FileView) (chunkSizeKb : Nat) (content : List UInt8) : Prop where
  chunkSize : 1 ≤ chunkSizeKb
  stat : ∃ info, view.stat = some info ∧ info.size.toNat = content.length ∧ info.isDir = false ∧
    info.isRegular = true
  opens : view.opens = true
  sniff : ∃ sniff, view.sniff = some sniff ∧ sniff ≠ [] ∧ sniff.length ≤ 512 ∧ sniff <+: content
  seeks : view.seeks = true
  reads : ∀ data ∈ view.reads, 1 ≤ data.length ∧ data.length ≤ chunkSizeKb * 1024
  lastRead : view.lastRead.1.length ≤ chunkSizeKb * 1024 ∧ view.lastRead.2 = .eof
  content_eq : (view.reads ++ [view.lastRead.1]).flatten = content

variable {detect sha256 maxFileSizeMb join driveId fileId}

theorem receiveAll_cons {a a' : FileAccumulator} {disk disk' : Disk}
    {resp : FileDownloaderResponse} {out : Option TmpFileLocation}
    (h : processResponse join sha256 a disk driveId fileId resp .success = (a', disk', .ok out))
    {rest : List FileDownloaderResponse} {a'' : FileAccumulator} {disk'' : Disk}
    {locations : List TmpFileLocation}
    (hRest : receiveAll sha256 join driveId fileId a' disk' rest = .ok (a'', disk'', locations)) :
    receiveAll sha256 join driveId fileId a disk (resp :: rest) =
      .ok (a'', disk'', out.toList ++ locations) := by
  simp only [receiveAll, h, hRest]

variable (sha256 join driveId)

theorem Holding.receive_chunks {a : FileAccumulator} {disk : Disk} {path : String} {mimeType : MIME}
    {taken : List UInt8} (h : Holding a disk fileId path mimeType taken)
    (chunks : List (List UInt8)) :
    ∃ a' disk', receiveAll sha256 join driveId fileId a disk
        (chunks.map chunkResponse ++ [signatureResponse (sha256 (taken ++ chunks.flatten))]) =
          .ok (a', disk', [{ driveId := driveId, fileId := fileId, tmpFilePath := path,
                             effectiveMimeType := mimeType }]) ∧
      disk'.get? path = some (taken ++ chunks.flatten) ∧ a'.buffers.get? fileId = none ∧
      a'.hash.get? fileId = none := by
  induction chunks generalizing a disk taken with
  | nil =>
    rw [List.flatten_nil, List.append_nil, List.map_nil, List.nil_append]
    refine ⟨_, _, receiveAll_cons (h.signature join sha256 driveId) rfl, h.content, ?_, ?_⟩
    · exact OrderedMap.get?_erase_self ..
    · exact OrderedMap.get?_erase_self ..
  | cons data chunks ih =>
    have hNone : IoOutcome.success.write = none := rfl
    obtain ⟨a', disk', hChunk, hHolding⟩ := h.chunk join sha256 driveId data hNone
    obtain ⟨a'', disk'', hRest, hDone⟩ := ih hHolding
    rw [List.flatten_cons, ← List.append_assoc]
    exact ⟨a'', disk'', receiveAll_cons hChunk hRest, hDone⟩

variable {sha256 join driveId}

theorem FileView.Reads.opened {view : FileView} {chunkSizeKb : Nat} {content : List UInt8}
    (h : view.Reads chunkSizeKb content)
    (hLimit : content.length ≤ (UInt64.ofInt (maxFileSizeMb * mb)).toNat)
    {request : FileDownloaderRequest} (hValid : validRequest request = true) :
    Opens maxFileSizeMb request view := by
  obtain ⟨info, hStat, hSize, hDir, hRegular⟩ := h.stat
  refine ⟨hValid, h.opens, info, hStat, ?_, by simp [hDir, hRegular]⟩
  rw [gt_iff_lt, UInt64.lt_iff_toNat_lt, hSize]
  omega

variable (detect sha256)

theorem FileView.Reads.process {view : FileView} {chunkSizeKb : Nat} {content : List UInt8}
    (h : view.Reads chunkSizeKb content)
    (hLimit : content.length ≤ (UInt64.ofInt (maxFileSizeMb * mb)).toNat)
    {request : FileDownloaderRequest} (hValid : validRequest request = true) :
    ∃ m, (Transfer.process detect sha256 maxFileSizeMb request view).1 =
        { fileMetadata := some m } ::
          (view.chunks.map chunkResponse ++ [signatureResponse (sha256 content)]) := by
  obtain ⟨info, _, _, hProcess⟩ :=
    process_opened detect sha256 maxFileSizeMb (h.opened hLimit hValid)
  obtain ⟨sniff, hSniff, _⟩ := h.sniff
  rw [hProcess _ hSniff, if_pos h.seeks]
  obtain ⟨m, hm⟩ : ∃ m, metadataResponse detect info sniff =
      { fileMetadata := some m } := ⟨_, rfl⟩
  refine ⟨m, ?_⟩
  simp only [hm, streamFile, h.lastRead.2, view.flatten_chunks, h.content_eq]

variable (maxFileSizeMb) in
theorem map_roundTrip (request : FileDownloaderRequest) (view : FileView) :
    (process detect sha256 maxFileSizeMb request view).1.map
        (fun resp => fromPbResponse (toPbResponse resp)) =
      (process detect sha256 maxFileSizeMb request view).1 := by
  have hSame : ∀ resp ∈ (process detect sha256 maxFileSizeMb request view).1,
      fromPbResponse (toPbResponse resp) = resp :=
    fun resp hResp => fromPbResponse_toPbResponse detect sha256 maxFileSizeMb hResp
  exact (List.map_congr_left hSame).trans (List.map_id' _)

variable (maxFileSizeMb join)

/-- What the scanner reads of a file arrives at the master byte for byte, and
the accumulator forgets the file. A request that fails validation is answered
by an error and leaves the accumulator as it was. -/
theorem transfer_lossless {view : FileView} {chunkSizeKb : Nat} {content : List UInt8}
    (hReads : view.Reads chunkSizeKb content)
    (hLimit : content.length ≤ (UInt64.ofInt (maxFileSizeMb * mb)).toNat)
    (request : FileDownloaderRequest) (a : FileAccumulator) (disk : Disk) (driveId : String)
    (fileId : FileID) :
    (validRequest request = true → ∃ m a' disk' location,
      (process detect sha256 maxFileSizeMb request view).1.head? =
        some { fileMetadata := some m } ∧
      receiveAll sha256 join driveId fileId a disk
        ((process detect sha256 maxFileSizeMb request view).1.map fun resp =>
          fromPbResponse (toPbResponse resp)) = .ok (a', disk', [location]) ∧
      location.driveId = driveId ∧ location.fileId = fileId ∧
      location.effectiveMimeType = m.effectiveMimeType ∧
      disk'.get? location.tmpFilePath = some content ∧
      a'.buffers.get? fileId = none ∧ a'.hash.get? fileId = none) ∧
    (validRequest request = false →
      receiveAll sha256 join driveId fileId a disk
        ((process detect sha256 maxFileSizeMb request view).1.map fun resp =>
          fromPbResponse (toPbResponse resp)) = .ok (a, disk, [])) := by
  rw [map_roundTrip]
  constructor
  · intro hValid
    obtain ⟨m, hResponses⟩ := hReads.process detect sha256 hLimit hValid
    rw [hResponses]
    have hCreate : IoOutcome.success.create = true := rfl
    obtain ⟨a', disk', hMetadata, hHolding⟩ :=
      holding_metadata join sha256 driveId a disk fileId m hCreate
    obtain ⟨a'', disk'', hRest, hDisk, hBuffers, hHash⟩ :=
      hHolding.receive_chunks sha256 join driveId view.chunks
    rw [List.nil_append, view.flatten_chunks, hReads.content_eq] at hRest hDisk
    exact ⟨m, a'', disk'', _, rfl, receiveAll_cons hMetadata hRest, rfl, rfl, rfl, hDisk,
      hBuffers, hHash⟩
  · intro hInvalid
    have hClosed : ¬ Opens maxFileSizeMb request view := by
      rintro ⟨hValid, _⟩
      rw [hInvalid] at hValid
      cases hValid
    obtain ⟨e, hProcess⟩ := process_refused detect sha256 maxFileSizeMb hClosed
    rw [hProcess]
    rfl

end Arrival

/-- Four bytes, read in two pieces; the end of the file comes with the second. -/
def textView : FileView :=
  { stat := some { size := 4, isDir := false, isRegular := true }, opens := true,
    sniff := some [104, 105, 33, 10], seeks := true, reads := [[104]],
    lastRead := ([105, 33, 10], .eof) }

theorem textView_reads : textView.Reads 64 [104, 105, 33, 10] where
  chunkSize := by decide
  stat := ⟨_, rfl, rfl, rfl, rfl⟩
  opens := rfl
  sniff := ⟨_, rfl, by decide, by decide, List.prefix_rfl⟩
  seeks := rfl
  reads := by decide
  lastRead := by decide
  content_eq := rfl

theorem transfer_lossless_text : ∃ a' disk' location,
    receiveAll (fun _ => "sum") (fun dir name => dir ++ "/" ++ name) "drive" "f"
      { tempDir := "/tmp", buffers := .empty, hash := .empty } .empty
      ((process (fun _ => "text/plain") (fun _ => "sum") 1 textRequest textView).1.map fun resp =>
        fromPbResponse (toPbResponse resp)) = .ok (a', disk', [location]) ∧
    disk'.get? location.tmpFilePath = some [104, 105, 33, 10] := by
  obtain ⟨hValid, _⟩ := transfer_lossless (fun _ => "text/plain") (fun _ => "sum") 1
    (fun dir name => dir ++ "/" ++ name) textView_reads (by decide) textRequest
    { tempDir := "/tmp", buffers := .empty, hash := .empty } .empty "drive" "f"
  obtain ⟨_, a', disk', location, _, hReceived, _, _, _, hDisk, _⟩ := hValid (by decide)
  exact ⟨a', disk', location, hReceived, hDisk⟩

end ChatLab.Transfer
