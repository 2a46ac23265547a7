import ChatLab.Transfer.Integrity

/-!
# What a finished download leaves behind

`handleDownload` reads responses until the stream ends, until a receive fails
or until the accumulator refuses one. Only a signature removes the entry of the
file and closes its handle. New metadata puts another handle in the place of
the old one, which nothing closes then.

The worker handles its requests one after the other. The calls that it makes of
`ProcessResponse` are kept as a ghost. A handle counts as open until the code
closes it; when the garbage collector finds a lost one is left open.
-/

namespace ChatLab.Transfer

open Foundation Workers

/-! ## One place with handles -/

/-- The entry of a file in the maps and the handles opened for it. -/
structure Slot where
  held : Bool
  opened : Nat
deriving DecidableEq

inductive Mark
  | opens
  | closes
deriving DecidableEq

namespace Slot

def empty : Slot where
  held := false
  opened := 0

def apply (s : Slot) : Mark → Slot
  | .opens => { held := true, opened := s.opened + 1 }
  | .closes => if s.held then { held := false, opened := s.opened - 1 } else s

def run (s : Slot) (marks : List Mark) : Slot := marks.foldl apply s

/-- Every handle is closed before the next one is opened, and in the end. -/
def settled : List Mark → Bool
  | [] => true
  | .closes :: rest => settled rest
  | .opens :: .closes :: rest => settled rest
  | .opens :: _ => false

/-- The handles beside the one in the maps are never closed. -/
theorem lost_le (marks : List Mark) (s : Slot) (h : s.held = true → 0 < s.opened) :
    s.opened - s.held.toNat ≤ (s.run marks).opened := by
  induction marks generalizing s with
  | nil => exact Nat.sub_le _ _
  | cons mark marks ih =>
    cases mark with
    | opens =>
      have hRest := ih (s.apply .opens) fun _ => Nat.succ_pos _
      have hOpened : (s.apply .opens).opened - (s.apply .opens).held.toNat = s.opened := rfl
      rw [hOpened] at hRest
      exact (Nat.sub_le _ _).trans hRest
    | closes =>
      cases hHeld : s.held with
      | false =>
        have hSame : s.apply .closes = s := by simp [apply, hHeld]
        have hRest := ih s h
        rw [hHeld] at hRest
        rwa [run, List.foldl_cons, hSame]
      | true =>
        have hClosed : s.apply .closes = { held := false, opened := s.opened - 1 } := by
          simp [apply, hHeld]
        rw [run, List.foldl_cons, hClosed]
        exact ih { held := false, opened := s.opened - 1 } (fun hFalse => absurd hFalse nofun)

theorem run_eq_iff (marks : List Mark) (n : Nat) :
    run { held := false, opened := n } marks = { held := false, opened := n } ↔
      settled marks = true := by
  induction marks using settled.induct with
  | case1 => exact iff_of_true rfl rfl
  | case2 rest ih => exact ih
  | case3 rest ih => exact ih
  | case4 rest hNext =>
    rw [settled]
    · refine iff_of_false ?_ Bool.false_ne_true
      cases rest with
      | nil => exact nofun
      | cons mark rest =>
        cases mark with
        | closes => exact absurd rfl (hNext rest)
        | opens =>
          intro hEq
          -- the first of the two handles is lost
          have hLost := lost_le rest { held := true, opened := n + 2 } fun _ => Nat.succ_pos _
          have hOpened : run { held := true, opened := n + 2 } rest =
              { held := false, opened := n } := hEq
          rw [hOpened] at hLost
          exact absurd hLost (by simp)
    · exact hNext

end Slot

/-! ## Downloads -/

/-- What `Recv` returns; with a response, what the file system answers to the
accumulator and whether the context ends before the location is taken. -/
inductive StreamEvent
  | eof
  | failed
  | response (control : Option Control) (io : IoOutcome) (cancelled : Bool)

structure DownloadCall where
  request : FileDownloaderRequest
  opens : Bool
  sends : Bool
  events : List StreamEvent

structure MasterFiles where
  accumulator : FileAccumulator
  disk : Disk
  -- one entry for each handle that is open
  openFiles : List FileID
  calls : List Call

def callOf (req : FileDownloaderRequest) (control : Option Control) (io : IoOutcome)
    (cancelled : Bool) : Call where
  driveId := req.driveId
  fileId := req.fileId
  resp := fromPbResponse control
  io := io
  cancelled := cancelled

section Worker

variable (sha256 : List UInt8 → String)

/-- `os.Create` opens a handle; `finalize` closes the one of the entry, whatever
it returns. -/
def openAfter (a : FileAccumulator) (c : Call) (openFiles : List FileID) : List FileID :=
  match c.resp.fileMetadata, c.resp.fileChunk, c.resp.fileSignature with
  | some _, _, _ => if c.io.create then c.fileId :: openFiles else openFiles
  | none, none, some _ =>
    if (a.buffers.get? c.fileId).isSome then openFiles.erase c.fileId else openFiles
  | _, _, _ => openFiles

def MasterFiles.call (s : MasterFiles) (c : Call) : MasterFiles where
  accumulator := (c.run sha256 s.accumulator s.disk).1
  disk := (c.run sha256 s.accumulator s.disk).2.1
  openFiles := openAfter s.accumulator c s.openFiles
  calls := s.calls ++ [c]

def MasterFiles.answer (s : MasterFiles) (c : Call) : Except CallError (Option TmpFileLocation) :=
  (c.run sha256 s.accumulator s.disk).2.2

/-- The loop of `handleDownload`; none while it waits for more. -/
def receiveLoop (req : FileDownloaderRequest) (s : MasterFiles) :
    List StreamEvent → Option MasterFiles
  | [] => none
  | .eof :: _ => some s
  | .failed :: _ => some s
  | .response control io cancelled :: rest =>
    match s.answer sha256 (callOf req control io cancelled) with
    | .error _ => some (s.call sha256 (callOf req control io cancelled))
    | .ok _ => receiveLoop req (s.call sha256 (callOf req control io cancelled)) rest

def handleDownload (s : MasterFiles) (d : DownloadCall) : Option MasterFiles :=
  if d.opens then
    if d.sends then receiveLoop sha256 d.request s d.events
    else some s
  else some s

/-- One request after the other, from a new accumulator. -/
def downloaderMachine (tempDir : String) (disk : Disk) : Machine MasterFiles DownloadCall where
  start :=
    { accumulator := { tempDir := tempDir, buffers := .empty, hash := .empty }
      disk := disk, openFiles := [], calls := [] }
  step := handleDownload sha256

end Worker

/-! ## The slot of a file -/

def Call.mark (c : Call) : Option Mark :=
  match c.resp.fileMetadata, c.resp.fileChunk, c.resp.fileSignature with
  | some _, _, _ => if c.io.create then some .opens else none
  | none, none, some _ => some .closes
  | _, _, _ => none

def marksFor (fileId : FileID) (calls : List Call) : List Mark :=
  (calls.filter fun c => c.fileId = fileId).filterMap Call.mark

def MasterFiles.slot (s : MasterFiles) (fileId : FileID) : Slot where
  held := (s.accumulator.buffers.get? fileId).isSome
  opened := s.openFiles.count fileId

/-- Nothing of the file is left: no entry in the maps and no open handle. -/
structure MasterFiles.Clean (s : MasterFiles) (fileId : FileID) : Prop where
  buffers : s.accumulator.buffers.get? fileId = none
  hash : s.accumulator.hash.get? fileId = none
  handles : fileId ∉ s.openFiles

section Run

variable {sha256 : List UInt8 → String} {s t : MasterFiles} {c : Call} {fileId : FileID}

theorem call_response (sha256 : List UInt8 → String) (s : MasterFiles) (c : Call) :
    ∃ result,
      processResponse joinPath sha256 s.accumulator s.disk c.driveId c.fileId c.resp c.io =
        ((s.call sha256 c).accumulator, (s.call sha256 c).disk, result) := by
  have hRun : c.run sha256 s.accumulator s.disk =
      ((s.call sha256 c).accumulator, (s.call sha256 c).disk, s.answer sha256 c) := rfl
  obtain ⟨result, hResponse, _⟩ := Call.run_eq hRun
  exact ⟨result, hResponse⟩

theorem call_touches (sha256 : List UInt8 → String) (s : MasterFiles) (c : Call) :
    Touches (joinPath s.accumulator.tempDir (c.fileId ++ ".tmp")) s.accumulator s.disk c.fileId
      (s.call sha256 c).accumulator (s.call sha256 c).disk := by
  obtain ⟨_, hResponse⟩ := call_response sha256 s c
  exact processResponse_touches hResponse

theorem slot_call_of_ne (s : MasterFiles) (hOther : fileId ≠ c.fileId) :
    (s.call sha256 c).slot fileId = s.slot fileId := by
  have hEntry := (call_touches sha256 s c).get?_of_ne hOther
  have hOpen : (openAfter s.accumulator c s.openFiles).count fileId =
      s.openFiles.count fileId := by
    rw [openAfter]
    split
    · split
      · exact List.count_cons_of_ne (Ne.symm hOther)
      · rfl
    · split
      · exact List.count_erase_of_ne hOther
      · rfl
    · rfl
  rw [MasterFiles.slot, hEntry.1]
  exact congrArg _ hOpen

/-- A chunk moves the handle of an entry and makes none. -/
theorem held_of_chunk {a a' : FileAccumulator} {disk disk' : Disk} {driveId : String}
    {resp : FileDownloaderResponse} {io : IoOutcome} {data : List UInt8}
    {result : Except AccumulatorError (Option TmpFileLocation)}
    (hMetadata : resp.fileMetadata = none) (hChunk : resp.fileChunk = some data)
    (h : processResponse joinPath sha256 a disk driveId fileId resp io = (a', disk', result)) :
    (a'.buffers.get? fileId).isSome = (a.buffers.get? fileId).isSome := by
  simp only [processResponse, hMetadata, hChunk] at h
  split at h
  · rename_i hBuffer _
    rw [hBuffer]
    split at h
    · cases h
      simp
    · cases h
      simp
  · cases h
    rfl

/-- A call does to the slot of its file what its mark says. -/
theorem slot_call_self (s : MasterFiles) (c : Call) :
    (s.call sha256 c).slot c.fileId = (s.slot c.fileId).run c.mark.toList := by
  obtain ⟨result, hResponse⟩ := call_response sha256 s c
  have hOpen : (s.call sha256 c).openFiles = openAfter s.accumulator c s.openFiles := rfl
  rw [MasterFiles.slot, hOpen]
  cases hMetadata : c.resp.fileMetadata with
  | some m =>
    simp only [processResponse, hMetadata] at hResponse
    simp only [openAfter, Call.mark, hMetadata]
    cases hCreate : c.io.create with
    | false =>
      rw [hCreate] at hResponse
      rw [← (Prod.mk.inj hResponse).1]
      rfl
    | true =>
      rw [hCreate] at hResponse
      rw [← (Prod.mk.inj hResponse).1]
      simp [Slot.run, Slot.apply, MasterFiles.slot]
  | none =>
    cases hChunk : c.resp.fileChunk with
    | some data =>
      rw [held_of_chunk hMetadata hChunk hResponse]
      simp only [openAfter, Call.mark, hMetadata, hChunk]
      rfl
    | none =>
      cases hSignature : c.resp.fileSignature with
      | some sha =>
        obtain ⟨hBuffers, _⟩ := processResponse_finalize hMetadata hChunk hSignature hResponse
        rw [hBuffers]
        simp only [openAfter, Call.mark, hMetadata, hChunk, hSignature]
        cases hEntry : (s.accumulator.buffers.get? c.fileId).isSome with
        | false => simp [Slot.run, Slot.apply, MasterFiles.slot, hEntry]
        | true => simp [Slot.run, Slot.apply, MasterFiles.slot, hEntry, List.count_erase_self]
      | none =>
        simp only [processResponse, hMetadata, hChunk, hSignature] at hResponse
        rw [← (Prod.mk.inj hResponse).1]
        simp only [openAfter, Call.mark, hMetadata, hChunk, hSignature]
        rfl

theorem marksFor_concat (fileId : FileID) (calls : List Call) (c : Call) :
    marksFor fileId (calls ++ [c]) =
      marksFor fileId calls ++ if c.fileId = fileId then c.mark.toList else [] := by
  rw [marksFor, List.filter_append, List.filterMap_append]
  by_cases h : c.fileId = fileId
  · rw [if_pos h, List.filter_cons_of_pos (by simpa using h)]
    cases hMark : c.mark with
    | none => simp [marksFor, hMark]
    | some mark => simp [marksFor, hMark]
  · rw [if_neg h, List.filter_cons_of_neg (by simpa using h)]
    rfl

/-- Every slot is what the calls for its file have made of it. -/
structure MasterFiles.Traced (s : MasterFiles) : Prop where
  slot : ∀ fileId, s.slot fileId = Slot.empty.run (marksFor fileId s.calls)
  keys : ∀ fileId, (s.accumulator.buffers.get? fileId).isSome =
    (s.accumulator.hash.get? fileId).isSome

theorem MasterFiles.Traced.call (h : s.Traced) (c : Call) : (s.call sha256 c).Traced := by
  have hCalls : (s.call sha256 c).calls = s.calls ++ [c] := rfl
  constructor
  · intro fileId
    rw [hCalls, marksFor_concat, Slot.run, List.foldl_append]
    by_cases hFile : fileId = c.fileId
    · subst hFile
      rw [slot_call_self, h.slot, if_pos rfl]
      rfl
    · rw [slot_call_of_ne s hFile, h.slot, if_neg (Ne.symm hFile)]
      rfl
  · intro fileId
    have hTouches := call_touches sha256 s c
    by_cases hFile : fileId = c.fileId
    · subst hFile
      exact hTouches.keys (h.keys _)
    · obtain ⟨hBuffers, hHash⟩ := hTouches.get?_of_ne hFile
      rw [hBuffers, hHash]
      exact h.keys fileId

theorem MasterFiles.Traced.receiveLoop (req : FileDownloaderRequest) (events : List StreamEvent)
    (h : s.Traced) (hReturns : receiveLoop sha256 req s events = some t) : t.Traced := by
  induction events generalizing s with
  | nil => cases hReturns
  | cons event events ih =>
    cases event with
    | eof =>
      cases hReturns
      exact h
    | failed =>
      cases hReturns
      exact h
    | response control io cancelled =>
      simp only [Transfer.receiveLoop] at hReturns
      split at hReturns
      · cases hReturns
        exact h.call _
      · exact ih (h.call _) hReturns

theorem MasterFiles.Traced.handleDownload (h : s.Traced) {d : DownloadCall}
    (hReturns : handleDownload sha256 s d = some t) : t.Traced := by
  simp only [Transfer.handleDownload] at hReturns
  split at hReturns
  · split at hReturns
    · exact h.receiveLoop d.request d.events hReturns
    · cases hReturns
      exact h
  · cases hReturns
    exact h

theorem MasterFiles.Traced.clean_iff (h : s.Traced) (fileId : FileID) :
    s.Clean fileId ↔ Slot.settled (marksFor fileId s.calls) = true := by
  rw [← Slot.run_eq_iff _ 0]
  have hSlot := h.slot fileId
  have hKeys := h.keys fileId
  constructor
  · intro hClean
    rw [← Slot.empty, ← hSlot, MasterFiles.slot, hClean.buffers,
      List.count_eq_zero_of_not_mem hClean.handles]
    rfl
  · intro hRun
    have hEmpty : s.slot fileId = { held := false, opened := 0 } := hSlot.trans hRun
    obtain ⟨hHeld, hOpened⟩ := Slot.mk.inj hEmpty
    rw [hHeld] at hKeys
    exact ⟨Option.isNone_iff_eq_none.mp (Option.isSome_eq_false_iff.mp hHeld),
      Option.isNone_iff_eq_none.mp (Option.isSome_eq_false_iff.mp hKeys.symm),
      List.count_eq_zero.mp hOpened⟩

theorem receiveLoop_calls (req : FileDownloaderRequest) (events : List StreamEvent)
    (hReturns : receiveLoop sha256 req s events = some t) :
    ∃ calls, t.calls = s.calls ++ calls ∧ ∀ c ∈ calls, c.fileId = req.fileId := by
  induction events generalizing s with
  | nil => cases hReturns
  | cons event events ih =>
    cases event with
    | eof =>
      cases hReturns
      exact ⟨[], (List.append_nil _).symm, fun _ hc => absurd hc List.not_mem_nil⟩
    | failed =>
      cases hReturns
      exact ⟨[], (List.append_nil _).symm, fun _ hc => absurd hc List.not_mem_nil⟩
    | response control io cancelled =>
      simp only [receiveLoop] at hReturns
      split at hReturns
      · cases hReturns
        refine ⟨[callOf req control io cancelled], rfl, ?_⟩
        intro c hMem
        rw [List.mem_singleton.mp hMem]
        rfl
      · obtain ⟨calls, hCalls, hFiles⟩ := ih hReturns
        refine ⟨callOf req control io cancelled :: calls,
          hCalls.trans (List.append_assoc s.calls [_] calls), ?_⟩
        intro c hMem
        obtain rfl | hMem := List.mem_cons.mp hMem
        · rfl
        · exact hFiles c hMem

theorem handleDownload_calls {d : DownloadCall} (hReturns : handleDownload sha256 s d = some t) :
    ∃ calls, t.calls = s.calls ++ calls ∧ ∀ c ∈ calls, c.fileId = d.request.fileId := by
  simp only [handleDownload] at hReturns
  split at hReturns
  · split at hReturns
    · exact receiveLoop_calls d.request d.events hReturns
    · cases hReturns
      exact ⟨[], (List.append_nil _).symm, fun _ hc => absurd hc List.not_mem_nil⟩
  · cases hReturns
    exact ⟨[], (List.append_nil _).symm, fun _ hc => absurd hc List.not_mem_nil⟩

theorem settled_append {before after : List Mark} (h : Slot.settled before = true) :
    Slot.settled (before ++ after) = Slot.settled after := by
  have hBefore := (Slot.run_eq_iff before 0).mpr h
  rw [Bool.eq_iff_iff, ← Slot.run_eq_iff _ 0, ← Slot.run_eq_iff after 0, Slot.run,
    List.foldl_append]
  rw [Slot.run] at hBefore
  rw [hBefore]
  rfl

theorem traced_of_reachable {tempDir : String} {disk : Disk}
    (h : (downloaderMachine sha256 tempDir disk).Reachable s) : s.Traced := by
  refine Machine.Reachable.invariant (I := MasterFiles.Traced) ?_ ?_ h
  · exact ⟨fun _ => rfl, fun _ => rfl⟩
  · exact fun s d t hs hStep => hs.handleDownload hStep

/-- A download that starts with nothing of its file leaves nothing of it exactly
when every accepted metadata is followed by a signature, before the next
accepted metadata and before the loop ends. The other files are left as they
were. -/
theorem download_clean_iff {tempDir : String} {disk : Disk}
    (h : (downloaderMachine sha256 tempDir disk).Reachable s) {d : DownloadCall}
    (hReturns : handleDownload sha256 s d = some t) :
    ∃ calls, t.calls = s.calls ++ calls ∧
      (t.Clean d.request.fileId ↔
        Slot.settled (marksFor d.request.fileId (s.calls ++ calls)) = true) ∧
      (s.Clean d.request.fileId →
        (t.Clean d.request.fileId ↔
          Slot.settled (marksFor d.request.fileId calls) = true)) ∧
      ∀ id, id ≠ d.request.fileId → (t.Clean id ↔ s.Clean id) := by
  have hTraced := traced_of_reachable h
  have hAfter := hTraced.handleDownload hReturns
  obtain ⟨calls, hCalls, hFiles⟩ := handleDownload_calls hReturns
  have hMarks : ∀ id,
      marksFor id (s.calls ++ calls) = marksFor id s.calls ++ marksFor id calls := by
    intro id
    simp only [marksFor, List.filter_append, List.filterMap_append]
  refine ⟨calls, hCalls, hCalls ▸ hAfter.clean_iff _, ?_, ?_⟩
  · intro hClean
    rw [hAfter.clean_iff, hCalls, hMarks, settled_append ((hTraced.clean_iff _).mp hClean)]
  · intro id hOther
    have hNone : marksFor id calls = [] := by
      rw [marksFor, List.filter_eq_nil_iff.mpr]
      · rfl
      · intro c hc
        simpa [hFiles c hc] using Ne.symm hOther
    rw [hAfter.clean_iff, hTraced.clean_iff, hCalls, hMarks, hNone, List.append_nil]

end Run

/-! ## Runs -/

def sampleDownload (events : List StreamEvent) : DownloadCall where
  request := { driveId := "d", fileId := sampleId 1, path := "/a" }
  opens := true
  sends := true
  events := events

def metadataEvent : StreamEvent :=
  .response (some (.metadata "application/pdf" "application/pdf" 2))
    { create := true, write := none } false

def chunkEvent : StreamEvent :=
  .response (some (.chunk [1, 2])) { create := true, write := none } false

def signatureEvent : StreamEvent :=
  .response (some (.signature "sum")) { create := true, write := none } false

def sampleDownloader : Machine MasterFiles DownloadCall :=
  downloaderMachine sampleDigest "tmp" .empty

def downloaded (events : List StreamEvent) : MasterFiles :=
  sampleDownloader.after [sampleDownload events]

theorem download_clean_iff_complete :
    handleDownload sampleDigest sampleDownloader.start
        (sampleDownload [metadataEvent, chunkEvent, signatureEvent, .eof]) =
      some (downloaded [metadataEvent, chunkEvent, signatureEvent, .eof]) ∧
    (downloaded [metadataEvent, chunkEvent, signatureEvent, .eof]).Clean (sampleId 1) := by
  have hReturns : handleDownload sampleDigest sampleDownloader.start
        (sampleDownload [metadataEvent, chunkEvent, signatureEvent, .eof]) =
      some (downloaded [metadataEvent, chunkEvent, signatureEvent, .eof]) := by rfl
  refine ⟨hReturns, ?_⟩
  have hStart : (downloaderMachine sampleDigest "tmp" .empty).Reachable sampleDownloader.start :=
    Machine.Reaches.start
  obtain ⟨calls, hCalls, hClean, _⟩ := download_clean_iff hStart hReturns
  refine hClean.mpr ?_
  rw [← hCalls]
  decide +kernel

/-- The stream ends behind the metadata: the entry stays in both maps, and its
handle stays open. -/
theorem entry_left_at_end_of_stream :
    handleDownload sampleDigest sampleDownloader.start (sampleDownload [metadataEvent, .eof]) =
      some (downloaded [metadataEvent, .eof]) ∧
    (downloaded [metadataEvent, .eof]).accumulator.buffers.get? (sampleId 1) ≠ none ∧
    (downloaded [metadataEvent, .eof]).accumulator.hash.get? (sampleId 1) ≠ none ∧
    (downloaded [metadataEvent, .eof]).openFiles = [sampleId 1] := by
  refine ⟨rfl, ?_, ?_, ?_⟩
  all_goals decide +kernel

-- the handle of the first metadata is lost when a second one comes
example : (downloaded [metadataEvent, metadataEvent, chunkEvent, signatureEvent, .eof]).slot
    (sampleId 1) = { held := false, opened := 1 } := by decide +kernel

end ChatLab.Transfer
