import ChatLab.Foundation.Filepath
import ChatLab.Foundation.Log
import ChatLab.Foundation.Machine
import ChatLab.Transfer.Accumulator

/-!
# Interleaved transfers

Calls of `ProcessResponse` for any number of files, in any order. Every file has
a path of its own below the temporary directory, so that a call touches one
entry and one file. `handleDownload` leaves its loop at the first call that
fails, so that the next call for the file, if any, brings new metadata. What a
failed write has left in the file is gone by then.
-/

namespace ChatLab.Transfer

open Foundation Workers

/-! ## Paths -/

/-- `filepath.Join` of two elements. -/
def joinPath (dir name : String) : String :=
  String.ofList (Filepath.join dir.toList name.toList)

def tmpPath (tempDir : String) (fileId : FileID) : String :=
  joinPath tempDir (fileId ++ ".tmp")

/-- All that the paths need of an identifier: a file below the directory. -/
def PlainId (fileId : FileID) : Prop := '/' ∉ fileId.toList

instance (fileId : FileID) : Decidable (PlainId fileId) := inferInstanceAs (Decidable (_ ∉ _))

theorem plainId_text (u : UUID) : PlainId u.text := by
  rw [PlainId, UUID.text, String.toList_ofList]
  intro h
  have hHex : ∀ d, UUID.hexDigit d ≠ '/' := by decide
  obtain h | ⟨d, h⟩ := UUID.mem_string h
  · exact absurd h (by decide)
  · exact hHex d h.symm

theorem PlainId.isName {fileId : FileID} (h : PlainId fileId) :
    Filepath.IsName (fileId ++ ".tmp").toList := by
  have hText : (fileId ++ ".tmp").toList = fileId.toList ++ ['.', 't', 'm', 'p'] :=
    String.toList_append ..
  have hLength : (fileId ++ ".tmp").toList.length = fileId.toList.length + 4 := by
    rw [hText, List.length_append]
    rfl
  refine ⟨⟨?_, ?_, ?_⟩, ?_⟩
  · intro hEq
    simp [hEq] at hLength
  · intro hEq
    simp [hEq] at hLength
  · intro hEq
    simp only [hEq, List.length_cons, List.length_nil] at hLength
    omega
  · rw [hText, List.mem_append, not_or]
    exact ⟨h, by decide⟩

theorem tmpPath_injective (tempDir : String) {u v : FileID} (hu : PlainId u) (hv : PlainId v)
    (h : tmpPath tempDir u = tmpPath tempDir v) : u = v := by
  have hJoin :=
    Filepath.join_injective tempDir.toList hu.isName hv.isName (String.ofList_injective h)
  simp only [String.toList_append] at hJoin
  exact String.toList_injective (List.append_cancel_right hJoin)

/-! ## Calls and their history -/

inductive CallError
  | response (e : AccumulatorError)
  | cancelled
deriving DecidableEq, Repr

/-- A call of `ProcessResponse`, with what the file system answers and whether
the context ends before the location is taken from it. -/
structure Call where
  driveId : String
  fileId : FileID
  resp : FileDownloaderResponse
  io : IoOutcome
  cancelled : Bool

structure CallRecord where
  call : Call
  accepted : Bool

abbrev CallRecord.fileId (r : CallRecord) : FileID := r.call.fileId

structure TransferState where
  accumulator : FileAccumulator
  disk : Disk
  calls : List CallRecord

section Machine

variable (sha256 : List UInt8 → String)

def Call.run (c : Call) (a : FileAccumulator) (disk : Disk) :
    FileAccumulator × Disk × Except CallError (Option TmpFileLocation) :=
  match processResponse joinPath sha256 a disk c.driveId c.fileId c.resp c.io with
  | (a, disk, .error e) => (a, disk, .error (.response e))
  | (a, disk, .ok none) => (a, disk, .ok none)
  | (a, disk, .ok (some location)) =>
    (a, disk, if c.cancelled then .error .cancelled else .ok (some location))

def transferStep (s : TransferState) (c : Call) : Option TransferState :=
  let (a, disk, result) := c.run sha256 s.accumulator s.disk
  some { accumulator := a, disk := disk,
         calls := s.calls ++ [{ call := c, accepted := result.isOk }] }

def transferMachine (tempDir : String) (disk : Disk) : Machine TransferState Call where
  start :=
    { accumulator := { tempDir := tempDir, buffers := .empty, hash := .empty }
      disk := disk, calls := [] }
  step := transferStep sha256

end Machine

/-- The last call for the file, if there was one, did not fail. -/
def TransferState.Continues (s : TransferState) (fileId : FileID) : Prop :=
  (Log.last? CallRecord.fileId s.calls fileId).all CallRecord.accepted = true

instance (s : TransferState) (fileId : FileID) : Decidable (s.Continues fileId) :=
  inferInstanceAs (Decidable (_ = _))

/-- After a failed call for a file comes its next metadata. -/
def Orderly (s : TransferState) (c : Call) : Prop :=
  PlainId c.fileId ∧ (c.resp.fileMetadata.isSome = true ∨ s.Continues c.fileId)

instance (s : TransferState) (c : Call) : Decidable (Orderly s c) :=
  inferInstanceAs (Decidable (_ ∧ (_ = _ ∨ _)))

/-- The chunks accepted since the last metadata, after one more call. -/
def extendChunks (resp : FileDownloaderResponse) (accepted : Bool) (chunks : List (List UInt8)) :
    List (List UInt8) :=
  match resp.fileMetadata, resp.fileChunk with
  | some _, _ => []
  | none, some data => if accepted then chunks ++ [data] else chunks
  | none, none => chunks

def acceptedChunks (fileId : FileID) (calls : List CallRecord) : List (List UInt8) :=
  calls.foldl
    (fun chunks r =>
      if r.fileId = fileId then extendChunks r.call.resp r.accepted chunks else chunks) []

theorem acceptedChunks_concat (fileId : FileID) (calls : List CallRecord) (r : CallRecord) :
    acceptedChunks fileId (calls ++ [r]) =
      if r.fileId = fileId then
        extendChunks r.call.resp r.accepted (acceptedChunks fileId calls)
      else acceptedChunks fileId calls := by
  rw [acceptedChunks, List.foldl_append]
  rfl

/-! ## What one call does -/

section Effect

variable {join : String → String → String} {sha256 : List UInt8 → String}
  {a a' : FileAccumulator} {disk disk' : Disk} {driveId : String} {fileId : FileID}
  {resp : FileDownloaderResponse} {io : IoOutcome}
  {result : Except AccumulatorError (Option TmpFileLocation)}

inductive Touches (path : String) (a : FileAccumulator) (disk : Disk) (fileId : FileID) :
    FileAccumulator → Disk → Prop
  | nothing : Touches path a disk fileId a disk
  | create (mimeType : MIME) :
      Touches path a disk fileId
        { a with
          buffers := a.buffers.insert fileId
            { file := { path := path, offset := 0 }, path := path, effectiveMimeType := mimeType }
          hash := a.hash.insert fileId [] }
        (disk.insert path [])
  | failedWrite {b : FileBuffer} {h : List UInt8} (hBuffer : a.buffers.get? fileId = some b)
      (hHash : a.hash.get? fileId = some h) (stored : List UInt8) (offset : Nat) :
      Touches path a disk fileId
        { a with
          buffers := a.buffers.insert fileId { b with file := { b.file with offset := offset } } }
        (Disk.write disk b.file stored)
  | write {b : FileBuffer} (hBuffer : a.buffers.get? fileId = some b) (data hashed : List UInt8)
      (offset : Nat) :
      Touches path a disk fileId
        { a with
          buffers := a.buffers.insert fileId { b with file := { b.file with offset := offset } }
          hash := a.hash.insert fileId hashed }
        (Disk.write disk b.file data)
  | remove :
      Touches path a disk fileId
        { a with buffers := a.buffers.erase fileId, hash := a.hash.erase fileId } disk

theorem processResponse_touches
    (h : processResponse join sha256 a disk driveId fileId resp io = (a', disk', result)) :
    Touches (join a.tempDir (fileId ++ ".tmp")) a disk fileId a' disk' := by
  unfold processResponse at h
  split at h
  · -- metadata
    dsimp only at h
    split at h
    · cases h
      exact .create _
    · cases h
      exact .nothing
  · -- a chunk
    split at h
    · rename_i b hashed hBuffer hHash
      dsimp only at h
      split at h
      · cases h
        exact .failedWrite hBuffer hHash _ _
      · cases h
        exact .write hBuffer _ _ _
    · cases h
      exact .nothing
  · -- a signature
    rename_i sha _ _ _
    have hErased := finalize_fst sha256 a fileId sha
    split at h
    · rename_i hFinalize
      cases h
      rw [hFinalize] at hErased
      obtain rfl := hErased
      exact .remove
    · rename_i hFinalize
      cases h
      rw [hFinalize] at hErased
      obtain rfl := hErased
      exact .remove
  · cases h
    exact .nothing

theorem Touches.tempDir {path : String} (h : Touches path a disk fileId a' disk') :
    a'.tempDir = a.tempDir := by
  cases h <;> rfl

/-- The entries of the other files stay. -/
theorem Touches.get?_of_ne {path : String} (h : Touches path a disk fileId a' disk')
    {id : FileID} (hOther : id ≠ fileId) :
    a'.buffers.get? id = a.buffers.get? id ∧ a'.hash.get? id = a.hash.get? id := by
  cases h with
  | nothing => exact ⟨rfl, rfl⟩
  | create =>
    exact ⟨OrderedMap.get?_insert_of_ne _ _ hOther, OrderedMap.get?_insert_of_ne _ _ hOther⟩
  | failedWrite => exact ⟨OrderedMap.get?_insert_of_ne _ _ hOther, rfl⟩
  | write =>
    exact ⟨OrderedMap.get?_insert_of_ne _ _ hOther, OrderedMap.get?_insert_of_ne _ _ hOther⟩
  | remove => exact ⟨OrderedMap.get?_erase_of_ne _ hOther, OrderedMap.get?_erase_of_ne _ hOther⟩

/-- A call writes to the file of its entry only. -/
theorem Touches.disk_of_ne {path : String} (h : Touches path a disk fileId a' disk')
    (hPath : ∀ b, a.buffers.get? fileId = some b → b.file.path = path)
    {p : String} (hOther : p ≠ path) : disk'.get? p = disk.get? p := by
  cases h with
  | nothing => rfl
  | create => exact OrderedMap.get?_insert_of_ne _ _ hOther
  | failedWrite hBuffer =>
    exact OrderedMap.get?_insert_of_ne _ _ (hPath _ hBuffer ▸ hOther)
  | write hBuffer =>
    exact OrderedMap.get?_insert_of_ne _ _ (hPath _ hBuffer ▸ hOther)
  | remove => rfl

theorem Touches.keys {path : String} (h : Touches path a disk fileId a' disk')
    (hKeys : (a.buffers.get? fileId).isSome = (a.hash.get? fileId).isSome) :
    (a'.buffers.get? fileId).isSome = (a'.hash.get? fileId).isSome := by
  cases h with
  | nothing => exact hKeys
  | create => simp
  | failedWrite _ hHash => simp [hHash]
  | write => simp
  | remove => simp

theorem Touches.path {path : String} (h : Touches path a disk fileId a' disk')
    (hPath : ∀ b, a.buffers.get? fileId = some b → b.path = path ∧ b.file.path = path)
    {b : FileBuffer} (hEntry : a'.buffers.get? fileId = some b) :
    b.path = path ∧ b.file.path = path := by
  cases h with
  | nothing => exact hPath b hEntry
  | create =>
    rw [OrderedMap.get?_insert_self] at hEntry
    obtain rfl := Option.some.inj hEntry
    exact ⟨rfl, rfl⟩
  | failedWrite hBuffer =>
    rw [OrderedMap.get?_insert_self] at hEntry
    obtain rfl := Option.some.inj hEntry
    have hOld := hPath _ hBuffer
    exact hOld
  | write hBuffer =>
    rw [OrderedMap.get?_insert_self] at hEntry
    obtain rfl := Option.some.inj hEntry
    have hOld := hPath _ hBuffer
    exact hOld
  | remove =>
    rw [OrderedMap.get?_erase_self] at hEntry
    cases hEntry

/-! ## The bytes of one file -/

theorem Receiving.congr {data : List UInt8} (h : Receiving a disk fileId data)
    (hBuffers : a'.buffers.get? fileId = a.buffers.get? fileId)
    (hHash : a'.hash.get? fileId = a.hash.get? fileId)
    (hDisk : ∀ b, a.buffers.get? fileId = some b →
      disk'.get? b.file.path = disk.get? b.file.path) : Receiving a' disk' fileId data := by
  obtain ⟨⟨path, mimeType, hBuffer, hContent⟩, hHashed⟩ := h
  refine ⟨⟨path, mimeType, hBuffers.trans hBuffer, ?_⟩, hHash.trans hHashed⟩
  exact (hDisk _ hBuffer).trans hContent

/-- An accepted call leaves the entry, if it leaves one, with the chunks
accepted since the last metadata. -/
theorem processResponse_receiving {out : Option TmpFileLocation} {chunks : List (List UInt8)}
    (h : processResponse join sha256 a disk driveId fileId resp io = (a', disk', .ok out))
    (hTaken : resp.fileMetadata = none → (a.buffers.get? fileId).isSome = true →
      Receiving a disk fileId chunks.flatten)
    (hEntry : (a'.buffers.get? fileId).isSome = true) :
    Receiving a' disk' fileId (extendChunks resp true chunks).flatten := by
  obtain ⟨metadata, chunk, signature, error⟩ := resp
  cases metadata with
  | some m =>
    have hCreate : processResponse join sha256 a disk driveId fileId { fileMetadata := some m } io =
        (a', disk', .ok out) := h
    exact (processResponse_metadata hCreate).2
  | none =>
    specialize hTaken rfl
    cases chunk with
    | some data =>
      have hWrite : processResponse join sha256 a disk driveId fileId (chunkResponse data) io =
          (a', disk', .ok out) := h
      have hBuffer : (a.buffers.get? fileId).isSome = true := by
        rw [Option.isSome_iff_ne_none]
        intro hNone
        simp only [processResponse, hNone] at h
        cases h
      have hMore := (processResponse_chunk (hTaken hBuffer) hWrite).2
      simpa [extendChunks] using hMore
    | none =>
      cases signature with
      | some sha =>
        rw [(processResponse_finalize rfl rfl rfl h).1] at hEntry
        cases hEntry
      | none =>
        cases h
        exact hTaken hEntry

theorem Call.run_eq {c : Call} {answer : Except CallError (Option TmpFileLocation)}
    (h : c.run sha256 a disk = (a', disk', answer)) :
    ∃ result, processResponse joinPath sha256 a disk c.driveId c.fileId c.resp c.io =
        (a', disk', result) ∧ ∀ out, answer = .ok out → result = .ok out := by
  unfold Call.run at h
  split at h
  · rename_i hResponse
    cases h
    exact ⟨_, hResponse, nofun⟩
  · rename_i hResponse
    cases h
    refine ⟨_, hResponse, ?_⟩
    rintro out ⟨⟩
    rfl
  · rename_i hResponse
    cases h
    refine ⟨_, hResponse, ?_⟩
    intro out hOut
    split at hOut
    · cases hOut
    · cases hOut
      rfl

end Effect

/-! ## The invariant of every run -/

structure TransferState.Sound (tempDir : String) (s : TransferState) : Prop where
  tempDir_eq : s.accumulator.tempDir = tempDir
  keys : ∀ id, (s.accumulator.buffers.get? id).isSome = (s.accumulator.hash.get? id).isSome
  path : ∀ id b, s.accumulator.buffers.get? id = some b →
    PlainId id ∧ b.path = tmpPath tempDir id ∧ b.file.path = tmpPath tempDir id
  receiving : ∀ id, s.Continues id → (s.accumulator.buffers.get? id).isSome = true →
    Receiving s.accumulator s.disk id (acceptedChunks id s.calls).flatten

section Run

variable {sha256 : List UInt8 → String} {tempDir : String} {s t : TransferState} {c : Call}

theorem continues_concat_self {calls : List CallRecord} {r : CallRecord} {a : FileAccumulator}
    {disk : Disk}
    (h : TransferState.Continues ⟨a, disk, calls ++ [r]⟩ r.fileId) : r.accepted = true := by
  rw [TransferState.Continues, Log.last?_concat, if_pos rfl] at h
  exact h

theorem continues_concat_of_ne {calls : List CallRecord} {r : CallRecord} {a a' : FileAccumulator}
    {disk disk' : Disk} {id : FileID} (hOther : id ≠ r.fileId)
    (h : TransferState.Continues ⟨a', disk', calls ++ [r]⟩ id) :
    TransferState.Continues ⟨a, disk, calls⟩ id := by
  rw [TransferState.Continues, Log.last?_concat, if_neg hOther.symm] at h
  exact h

/-- The file of another transfer is not the one that a call writes to. -/
theorem TransferState.Sound.frame (hs : s.Sound tempDir) (hPlain : PlainId c.fileId)
    {a : FileAccumulator} {disk : Disk} {answer : Except CallError (Option TmpFileLocation)}
    (hRun : c.run sha256 s.accumulator s.disk = (a, disk, answer)) {id : FileID}
    (hId : PlainId id) (hOther : id ≠ c.fileId) :
    a.buffers.get? id = s.accumulator.buffers.get? id ∧
      a.hash.get? id = s.accumulator.hash.get? id ∧
      disk.get? (tmpPath tempDir id) = s.disk.get? (tmpPath tempDir id) := by
  obtain ⟨result, hResponse, _⟩ := Call.run_eq hRun
  have hTouches := processResponse_touches hResponse
  rw [hs.tempDir_eq] at hTouches
  obtain ⟨hBuffers, hHash⟩ := hTouches.get?_of_ne hOther
  refine ⟨hBuffers, hHash, hTouches.disk_of_ne ?_ ?_⟩
  · intro b hb
    exact (hs.path _ _ hb).2.2
  · intro hSame
    exact hOther (tmpPath_injective tempDir hId hPlain hSame)

/-- The bytes of the file that the call is about. -/
theorem TransferState.Sound.receiving_self (hs : s.Sound tempDir) (hOrderly : Orderly s c)
    {a : FileAccumulator} {disk : Disk} {out : Option TmpFileLocation}
    (hResponse : processResponse joinPath sha256 s.accumulator s.disk c.driveId c.fileId c.resp
      c.io = (a, disk, .ok out))
    (hEntry : (a.buffers.get? c.fileId).isSome = true) :
    Receiving a disk c.fileId
      (extendChunks c.resp true (acceptedChunks c.fileId s.calls)).flatten := by
  refine processResponse_receiving hResponse ?_ hEntry
  intro hNone hOld
  refine hs.receiving _ (hOrderly.2.resolve_left ?_) hOld
  simp [hNone]

/-- The bytes of any other file. -/
theorem TransferState.Sound.receiving_of_ne (hs : s.Sound tempDir) (hPlain : PlainId c.fileId)
    {a : FileAccumulator} {disk : Disk} {answer : Except CallError (Option TmpFileLocation)}
    (hRun : c.run sha256 s.accumulator s.disk = (a, disk, answer)) {id : FileID}
    (hOther : id ≠ c.fileId) (hContinues : s.Continues id)
    (hEntry : (s.accumulator.buffers.get? id).isSome = true) :
    Receiving a disk id (acceptedChunks id s.calls).flatten := by
  obtain ⟨b, hb⟩ := Option.isSome_iff_exists.mp hEntry
  obtain ⟨hId, _, hFile⟩ := hs.path id b hb
  obtain ⟨hBuffers, hHash, hDisk⟩ := hs.frame hPlain hRun hId hOther
  refine (hs.receiving id hContinues hEntry).congr hBuffers hHash ?_
  intro b' hb'
  rw [(hs.path id b' hb').2.2]
  exact hDisk

theorem TransferState.Sound.step (hs : s.Sound tempDir) (hOrderly : Orderly s c)
    (hStep : transferStep sha256 s c = some t) : t.Sound tempDir := by
  obtain ⟨a, disk, answer, hRun⟩ : ∃ a disk answer,
      c.run sha256 s.accumulator s.disk = (a, disk, answer) := ⟨_, _, _, rfl⟩
  simp only [transferStep, hRun] at hStep
  obtain rfl := Option.some.inj hStep
  obtain ⟨result, hResponse, hAnswer⟩ := Call.run_eq hRun
  have hTouches := processResponse_touches hResponse
  rw [hs.tempDir_eq] at hTouches
  refine ⟨hTouches.tempDir.trans hs.tempDir_eq, ?_, ?_, ?_⟩
  · intro id
    by_cases hId : id = c.fileId
    · subst hId
      exact hTouches.keys (hs.keys _)
    · obtain ⟨hBuffers, hHash⟩ := hTouches.get?_of_ne hId
      simp only [hBuffers, hHash]
      exact hs.keys id
  · intro id b hb
    by_cases hId : id = c.fileId
    · subst hId
      exact ⟨hOrderly.1, hTouches.path (fun b hb => (hs.path _ b hb).2) hb⟩
    · rw [(hTouches.get?_of_ne hId).1] at hb
      exact hs.path id b hb
  · intro id hContinues hEntry
    by_cases hId : id = c.fileId
    · subst hId
      have hAccepted : answer.isOk = true := continues_concat_self hContinues
      cases answer with
      | error e => cases hAccepted
      | ok out =>
        obtain rfl := hAnswer out rfl
        rw [acceptedChunks_concat, if_pos rfl]
        exact hs.receiving_self hOrderly hResponse hEntry
    · rw [acceptedChunks_concat, if_neg (Ne.symm hId)]
      rw [(hTouches.get?_of_ne hId).1] at hEntry
      exact hs.receiving_of_ne hOrderly.1 hRun hId (continues_concat_of_ne hId hContinues) hEntry

theorem sound_of_reaches {disk : Disk}
    (h : (transferMachine sha256 tempDir disk).Reaches Orderly s) : s.Sound tempDir := by
  refine h.invariant ⟨rfl, fun _ => rfl, ?_, ?_⟩ fun _ _ _ hs => hs.step
  · intro id b hb
    cases hb
  · intro id _ hEntry
    cases hEntry

/-- Both maps have the same keys in every state. A call leaves the entries and
the files of the others alone, and a signature removes its entry; when it is
accepted, the published file is what the chunks since the last metadata say. -/
theorem accumulator_integrity {disk : Disk}
    (h : (transferMachine sha256 tempDir disk).Reaches Orderly s) :
    (∀ id, id ∈ s.accumulator.buffers.keys ↔ id ∈ s.accumulator.hash.keys) ∧
    ∀ c, Orderly s c → ∀ a' disk' answer,
      c.run sha256 s.accumulator s.disk = (a', disk', answer) →
      (∀ id, PlainId id → id ≠ c.fileId →
        a'.buffers.get? id = s.accumulator.buffers.get? id ∧
        a'.hash.get? id = s.accumulator.hash.get? id ∧
        disk'.get? (tmpPath tempDir id) = s.disk.get? (tmpPath tempDir id)) ∧
      ∀ sha, c.resp.fileMetadata = none → c.resp.fileChunk = none →
        c.resp.fileSignature = some sha →
        a'.buffers.get? c.fileId = none ∧ a'.hash.get? c.fileId = none ∧
        ∀ out, answer = .ok out → ∃ location, out = some location ∧
          location.driveId = c.driveId ∧ location.fileId = c.fileId ∧
          location.tmpFilePath = tmpPath tempDir c.fileId ∧
          disk'.get? location.tmpFilePath = some (acceptedChunks c.fileId s.calls).flatten ∧
          sha256 (acceptedChunks c.fileId s.calls).flatten = sha := by
  have hs := sound_of_reaches h
  constructor
  · intro id
    have hKeys := hs.keys id
    rw [OrderedMap.mem_keys_iff, OrderedMap.mem_keys_iff, ← Option.isSome_iff_exists,
      ← Option.isSome_iff_exists, hKeys]
  · intro c hOrderly a' disk' answer hRun
    constructor
    · intro id hId hOther
      exact hs.frame hOrderly.1 hRun hId hOther
    · intro sha hMetadata hChunk hSignature
      obtain ⟨result, hResponse, hAnswer⟩ := Call.run_eq hRun
      obtain ⟨hBuffers, hHash, rfl, hOk⟩ :=
        processResponse_finalize hMetadata hChunk hSignature hResponse
      refine ⟨hBuffers, hHash, ?_⟩
      intro out hOut
      obtain ⟨location, b, hashed, rfl, hDrive, hFile, hPath, hBuffer, hHashed, hSha⟩ :=
        hOk out (hAnswer out hOut)
      -- the entry is the one that the chunks since the last metadata have filled
      have hContinues : s.Continues c.fileId := hOrderly.2.resolve_left (by simp [hMetadata])
      obtain ⟨⟨path, mimeType, hEntry, hContent⟩, hDigest⟩ :=
        hs.receiving c.fileId hContinues (by simp [hBuffer])
      obtain rfl := Option.some.inj (hBuffer.symm.trans hEntry)
      obtain rfl := Option.some.inj (hHashed.symm.trans hDigest)
      refine ⟨location, rfl, hDrive, hFile, hPath.trans (hs.path _ _ hBuffer).2.1, ?_, hSha⟩
      rw [hPath]
      exact hContent

end Run

/-! A file whose first transfer breaks off in a write, around another file. -/

def sampleId (n : Nat) : FileID :=
  UUID.text ⟨List.replicate 32 (UUID.digit n), List.length_replicate⟩

def sampleCall (n : Nat) (resp : FileDownloaderResponse) (write : Option Nat) : Call :=
  { driveId := "drive", fileId := sampleId n, resp := resp,
    io := { create := true, write := write }, cancelled := false }

def sampleMetadata : FileDownloaderResponse :=
  { fileMetadata := some { rawMimeType := "text/plain", effectiveMimeType := .textPlain,
                           size := 2 } }

def sampleDigest (bytes : List UInt8) : String := if bytes = [1, 2] then "sum" else ""

def interleavedCalls : List Call :=
  [sampleCall 1 sampleMetadata none, sampleCall 2 sampleMetadata none,
   sampleCall 1 (chunkResponse [9, 9, 9]) (some 2), sampleCall 2 (chunkResponse [1]) none,
   sampleCall 1 sampleMetadata none, sampleCall 1 (chunkResponse [1]) none,
   sampleCall 2 (chunkResponse [7]) (some 0), sampleCall 1 (chunkResponse [2]) none]

def interleavedState : TransferState :=
  ((transferMachine sampleDigest "/tmp/" .empty).restrict Orderly).after interleavedCalls

theorem accumulator_integrity_interleaved : ∃ a' disk' location,
    (sampleCall 1 (signatureResponse "sum") none).run sampleDigest
      interleavedState.accumulator interleavedState.disk = (a', disk', .ok (some location)) ∧
    interleavedState.calls.length = 8 ∧
    disk'.get? location.tmpFilePath = some [1, 2] := by
  have hReaches := Machine.reaches_after_restrict (transferMachine sampleDigest "/tmp/" .empty)
    Orderly interleavedCalls
  obtain ⟨_, hCalls⟩ := accumulator_integrity hReaches
  obtain ⟨hAccepted, hContinues, hChunks, hLength⟩ :
      ((sampleCall 1 (signatureResponse "sum") none).run sampleDigest
        interleavedState.accumulator interleavedState.disk).2.2.isOk = true ∧
      interleavedState.Continues (sampleId 1) ∧
      (acceptedChunks (sampleId 1) interleavedState.calls).flatten = [1, 2] ∧
      interleavedState.calls.length = 8 := by
    decide +kernel
  have hOrderly : Orderly interleavedState (sampleCall 1 (signatureResponse "sum") none) :=
    ⟨plainId_text _, Or.inr hContinues⟩
  rcases hRun : (sampleCall 1 (signatureResponse "sum") none).run sampleDigest
    interleavedState.accumulator interleavedState.disk with ⟨a', disk', answer⟩
  obtain ⟨_, hSignature⟩ := hCalls _ hOrderly a' disk' answer hRun
  obtain ⟨_, _, hOk⟩ := hSignature "sum" rfl rfl rfl
  rw [hRun] at hAccepted
  cases answer with
  | error e => cases hAccepted
  | ok out =>
    obtain ⟨location, rfl, _, _, _, hContent, _⟩ := hOk out rfl
    refine ⟨a', disk', location, rfl, hLength, ?_⟩
    exact hContent.trans (congrArg some hChunks)

end ChatLab.Transfer
