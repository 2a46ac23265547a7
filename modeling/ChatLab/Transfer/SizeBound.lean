import ChatLab.Transfer.Integrity

/-!
# The announced size

The metadata of a file announce its size. The accumulator never reads it: every
chunk is written, and a signature is judged by its digest alone. The bytes in
the file are exactly those that the writes have stored since the metadata, so
the bound holds as long as the sender keeps to it and breaks at the first call
that does not. The calls may be interleaved and go on after a failure.
-/

namespace ChatLab.Transfer

open Foundation Workers

/-- What the calls for a file amount to since the metadata that created it:
the announced size, the bytes that writes have stored, failed ones included,
and the bytes of the accepted chunks. -/
structure Ledger where
  size : Nat
  written : Nat
  received : List UInt8
  active : Bool
deriving DecidableEq

def nextLedger (resp : FileDownloaderResponse) (io : IoOutcome) (l : Option Ledger) :
    Option Ledger :=
  match resp.fileMetadata, resp.fileChunk, resp.fileSignature with
  | some m, _, _ =>
    if io.create then some { size := m.size.toNat, written := 0, received := [], active := true }
    else l
  | none, some data, _ =>
    l.map fun l =>
      if l.active then
        { l with
          written := l.written + ((io.write.map data.take).getD data).length
          received := if io.write.isSome then l.received else l.received ++ data }
      else l
  | none, none, some _ => l.map fun l => { l with active := false }
  | none, none, none => l

def ledger (fileId : FileID) (calls : List CallRecord) : Option Ledger :=
  calls.foldl
    (fun l r => if r.fileId = fileId then nextLedger r.call.resp r.call.io l else l) none

theorem ledger_concat (fileId : FileID) (calls : List CallRecord) (r : CallRecord) :
    ledger fileId (calls ++ [r]) =
      if r.fileId = fileId then nextLedger r.call.resp r.call.io (ledger fileId calls)
      else ledger fileId calls := by
  rw [ledger, List.foldl_append]
  rfl

/-! ## The property -/

/-- No file is longer than the size that was announced for it. -/
def WithinSize (tempDir : String) (s : TransferState) : Prop :=
  ∀ id, PlainId id → ∀ l content, ledger id s.calls = some l →
    s.disk.get? (tmpPath tempDir id) = some content → content.length ≤ l.size

/-- The call brings a signature; `ProcessResponse` looks at the other fields first. -/
structure Call.Signs (c : Call) (sha : String) : Prop where
  metadata : c.resp.fileMetadata = none
  chunk : c.resp.fileChunk = none
  signature : c.resp.fileSignature = some sha

section Property

variable (sha256 : List UInt8 → String) (s : TransferState) (c : Call)

/-- If the call is a signature that is accepted, the announced number of bytes
was received. -/
def SignedExactly : Prop :=
  ∀ sha, c.Signs sha → (c.run sha256 s.accumulator s.disk).2.2.isOk = true →
    ∃ l, ledger c.fileId s.calls = some l ∧ l.received.length = l.size

/-- The sender keeps to the announced size: after the call no more was written,
and the digest of the received bytes is not sent before they are complete. -/
structure KeepsSize : Prop where
  plain : PlainId c.fileId
  written : ∀ l, nextLedger c.resp c.io (ledger c.fileId s.calls) = some l → l.written ≤ l.size
  received : ∀ l, ledger c.fileId s.calls = some l → l.active = true →
    c.Signs (sha256 l.received) → c.cancelled = false → l.received.length = l.size

end Property

/-! ## The entry and the file follow the ledger -/

section Entered

variable {join : String → String → String} {sha256 : List UInt8 → String}
  {a a' : FileAccumulator} {disk disk' : Disk} {path driveId : String} {fileId : FileID}
  {resp : FileDownloaderResponse} {io : IoOutcome}
  {result : Except AccumulatorError (Option TmpFileLocation)} {l : Option Ledger}

inductive Entered (a : FileAccumulator) (disk : Disk) (path : String) (fileId : FileID) :
    Option Ledger → Prop
  | absent (hBuffer : a.buffers.get? fileId = none) : Entered a disk path fileId none
  | active {size : Nat} {mimeType : MIME} {content received : List UInt8}
      (hBuffer : a.buffers.get? fileId =
        some { file := { path := path, offset := content.length }, path := path,
               effectiveMimeType := mimeType })
      (hContent : disk.get? path = some content) (hHash : a.hash.get? fileId = some received) :
      Entered a disk path fileId (some ⟨size, content.length, received, true⟩)
  | closed {size : Nat} {content received : List UInt8} (hBuffer : a.buffers.get? fileId = none)
      (hContent : disk.get? path = some content) :
      Entered a disk path fileId (some ⟨size, content.length, received, false⟩)

theorem Entered.content {l : Ledger} (h : Entered a disk path fileId (some l)) :
    ∃ content, disk.get? path = some content ∧ content.length = l.written := by
  cases h with
  | active _ hContent _ => exact ⟨_, hContent, rfl⟩
  | closed _ hContent => exact ⟨_, hContent, rfl⟩

theorem Entered.path_eq (h : Entered a disk path fileId l) {b : FileBuffer}
    (hBuffer : a.buffers.get? fileId = some b) : b.file.path = path := by
  cases h with
  | absent hNone =>
    rw [hNone] at hBuffer
    cases hBuffer
  | active hEntry _ _ =>
    obtain rfl := Option.some.inj (hEntry.symm.trans hBuffer)
    rfl
  | closed hNone _ =>
    rw [hNone] at hBuffer
    cases hBuffer

theorem Entered.congr (h : Entered a disk path fileId l)
    (hBuffers : a'.buffers.get? fileId = a.buffers.get? fileId)
    (hHash : a'.hash.get? fileId = a.hash.get? fileId)
    (hDisk : disk'.get? path = disk.get? path) : Entered a' disk' path fileId l := by
  cases h with
  | absent hBuffer => exact .absent (hBuffers.trans hBuffer)
  | active hBuffer hContent hHashed =>
    exact .active (hBuffers.trans hBuffer) (hDisk.trans hContent) (hHash.trans hHashed)
  | closed hBuffer hContent => exact .closed (hBuffers.trans hBuffer) (hDisk.trans hContent)

theorem Entered.metadata (h : Entered a disk path fileId l)
    (hPath : join a.tempDir (fileId ++ ".tmp") = path) {m : FileMetadata}
    (hMetadata : resp.fileMetadata = some m)
    (hRun : processResponse join sha256 a disk driveId fileId resp io = (a', disk', result)) :
    Entered a' disk' path fileId (nextLedger resp io l) := by
  simp only [processResponse, nextLedger, hMetadata, hPath] at hRun ⊢
  cases hCreate : io.create with
  | false =>
    simp only [hCreate] at hRun
    cases hRun
    exact h
  | true =>
    simp only [hCreate, if_true] at hRun
    cases hRun
    have hContent : (disk.insert path []).get? path = some [] := OrderedMap.get?_insert_self ..
    exact .active (OrderedMap.get?_insert_self ..) hContent (OrderedMap.get?_insert_self ..)

theorem Entered.chunk (h : Entered a disk path fileId l) {data : List UInt8}
    (hMetadata : resp.fileMetadata = none) (hChunk : resp.fileChunk = some data)
    (hRun : processResponse join sha256 a disk driveId fileId resp io = (a', disk', result)) :
    Entered a' disk' path fileId (nextLedger resp io l) := by
  simp only [processResponse, nextLedger, hMetadata, hChunk] at hRun ⊢
  cases h with
  | absent hBuffer =>
    simp only [hBuffer] at hRun
    cases hRun
    exact .absent hBuffer
  | closed hBuffer hContent =>
    simp only [hBuffer] at hRun
    cases hRun
    exact .closed hBuffer hContent
  | active hBuffer hContent hHash =>
    rename_i size mimeType content received
    simp only [hBuffer, hHash] at hRun
    have hWritten : (disk.write { path := path, offset := content.length }
        ((io.write.map data.take).getD data)).get? path =
          some (content ++ (io.write.map data.take).getD data) := by
      rw [Disk.write, OrderedMap.get?_insert_self, hContent, Option.getD_some, writeAt_end]
    simp only [Option.map_some, if_true, ← List.length_append] at hRun ⊢
    cases hWrite : io.write with
    | none =>
      simp only [hWrite] at hRun hWritten ⊢
      cases hRun
      exact .active (OrderedMap.get?_insert_self ..) hWritten (OrderedMap.get?_insert_self ..)
    | some n =>
      simp only [hWrite] at hRun hWritten ⊢
      cases hRun
      exact .active (OrderedMap.get?_insert_self ..) hWritten hHash

theorem Entered.signature (h : Entered a disk path fileId l) {sha : String}
    (hMetadata : resp.fileMetadata = none) (hChunk : resp.fileChunk = none)
    (hSignature : resp.fileSignature = some sha)
    (hRun : processResponse join sha256 a disk driveId fileId resp io = (a', disk', result)) :
    Entered a' disk' path fileId (nextLedger resp io l) := by
  obtain ⟨hGone, _, rfl, _⟩ := processResponse_finalize hMetadata hChunk hSignature hRun
  simp only [nextLedger, hMetadata, hChunk, hSignature]
  cases h with
  | absent _ => exact .absent hGone
  | active _ hContent _ => exact .closed hGone hContent
  | closed _ hContent => exact .closed hGone hContent

theorem Entered.next (h : Entered a disk path fileId l)
    (hPath : join a.tempDir (fileId ++ ".tmp") = path)
    (hRun : processResponse join sha256 a disk driveId fileId resp io = (a', disk', result)) :
    Entered a' disk' path fileId (nextLedger resp io l) := by
  cases hMetadata : resp.fileMetadata with
  | some m => exact h.metadata hPath hMetadata hRun
  | none =>
    cases hChunk : resp.fileChunk with
    | some data => exact h.chunk hMetadata hChunk hRun
    | none =>
      cases hSignature : resp.fileSignature with
      | some sha => exact h.signature hMetadata hChunk hSignature hRun
      | none =>
        simp only [processResponse, nextLedger, hMetadata, hChunk, hSignature] at hRun ⊢
        cases hRun
        exact h

/-- A signature is accepted exactly if the file is open, the digest is that of
the received bytes and the context lasts. The size does not come into it. -/
theorem Entered.run_isOk {c : Call} {sha : String} (hSigns : c.Signs sha)
    (h : Entered a disk path c.fileId l) :
    (c.run sha256 a disk).2.2.isOk = true ↔
      ∃ entry, l = some entry ∧ entry.active = true ∧ sha256 entry.received = sha ∧
        c.cancelled = false := by
  rw [Call.run]
  simp only [processResponse, hSigns.metadata, hSigns.chunk, hSigns.signature]
  cases h with
  | absent hBuffer => simp [finalize, hBuffer, Except.isOk, Except.toBool]
  | closed hBuffer _ => simp [finalize, hBuffer, Except.isOk, Except.toBool]
  | active hBuffer hContent hHash =>
    rename_i size mimeType content received
    by_cases hSha : sha256 received = sha
    · cases hCancelled : c.cancelled with
      | false => simp [finalize, hBuffer, hHash, hSha, Except.isOk, Except.toBool]
      | true => simp [finalize, hBuffer, hHash, hSha, Except.isOk, Except.toBool]
    · simp [finalize, hBuffer, hHash, hSha, Except.isOk, Except.toBool]

end Entered

/-! ## Runs -/

structure TransferState.Entries (tempDir : String) (s : TransferState) : Prop where
  tempDir_eq : s.accumulator.tempDir = tempDir
  entered : ∀ id, PlainId id →
    Entered s.accumulator s.disk (tmpPath tempDir id) id (ledger id s.calls)

/-- The identifiers name files below the directory; nothing else is asked. -/
def PlainCall (_ : TransferState) (c : Call) : Prop := PlainId c.fileId

instance (s : TransferState) (c : Call) : Decidable (PlainCall s c) :=
  inferInstanceAs (Decidable (PlainId c.fileId))

section Run

variable {sha256 : List UInt8 → String} {tempDir : String} {s t : TransferState} {c : Call}

theorem TransferState.Entries.step (hs : s.Entries tempDir) (hPlain : PlainId c.fileId)
    (hStep : transferStep sha256 s c = some t) : t.Entries tempDir := by
  obtain ⟨a, disk, answer, hRun⟩ : ∃ a disk answer,
      c.run sha256 s.accumulator s.disk = (a, disk, answer) := ⟨_, _, _, rfl⟩
  simp only [transferStep, hRun] at hStep
  obtain rfl := Option.some.inj hStep
  obtain ⟨result, hResponse, _⟩ := Call.run_eq hRun
  have hOwn := hs.entered c.fileId hPlain
  have hPath : joinPath s.accumulator.tempDir (c.fileId ++ ".tmp") = tmpPath tempDir c.fileId := by
    rw [hs.tempDir_eq]
    rfl
  have hTouches := processResponse_touches hResponse
  rw [hPath] at hTouches
  refine ⟨hTouches.tempDir.trans hs.tempDir_eq, ?_⟩
  intro id hId
  rw [ledger_concat]
  by_cases hSame : c.fileId = id
  · subst hSame
    rw [if_pos rfl]
    exact hOwn.next hPath hResponse
  · rw [if_neg hSame]
    obtain ⟨hBuffers, hHash⟩ := hTouches.get?_of_ne (Ne.symm hSame)
    refine (hs.entered id hId).congr hBuffers hHash (hTouches.disk_of_ne ?_ ?_)
    · exact fun b hb => hOwn.path_eq hb
    · exact fun hEq => hSame (tmpPath_injective tempDir hId hPlain hEq).symm

theorem entries_of_reaches {disk : Disk}
    (h : (transferMachine sha256 tempDir disk).Reaches PlainCall s) : s.Entries tempDir := by
  refine h.invariant ⟨rfl, ?_⟩ fun _ _ _ hs => hs.step
  intro id _
  exact .absent rfl

/-- The length of a file is what the ledger says was written. -/
theorem TransferState.Entries.withinSize_iff (hs : s.Entries tempDir) :
    WithinSize tempDir s ↔
      ∀ id, PlainId id → ∀ l, ledger id s.calls = some l → l.written ≤ l.size := by
  constructor
  · intro hWithin id hId l hl
    have hEntered := hs.entered id hId
    rw [hl] at hEntered
    obtain ⟨content, hContent, hLength⟩ := hEntered.content
    rw [← hLength]
    exact hWithin id hId l content hl hContent
  · intro hWritten id hId l content hl hContent
    have hEntered := hs.entered id hId
    rw [hl] at hEntered
    obtain ⟨content', hContent', hLength⟩ := hEntered.content
    obtain rfl := Option.some.inj (hContent.symm.trans hContent')
    rw [hLength]
    exact hWritten id hId l hl

theorem TransferState.Entries.signedExactly_iff (hs : s.Entries tempDir)
    (hPlain : PlainId c.fileId) :
    SignedExactly sha256 s c ↔ ∀ l, ledger c.fileId s.calls = some l → l.active = true →
      c.Signs (sha256 l.received) → c.cancelled = false → l.received.length = l.size := by
  have hEntered := hs.entered c.fileId hPlain
  constructor
  · intro hExact l hl hActive hSigns hCancelled
    obtain ⟨l', hl', hLength⟩ := hExact _ hSigns
      ((hEntered.run_isOk hSigns).mpr ⟨l, hl, hActive, rfl, hCancelled⟩)
    obtain rfl := Option.some.inj (hl.symm.trans hl')
    exact hLength
  · intro hAll sha hSigns hOk
    obtain ⟨l, hl, hActive, rfl, hCancelled⟩ := (hEntered.run_isOk hSigns).mp hOk
    exact ⟨l, hl, hAll l hl hActive hSigns hCancelled⟩

/-- One call: the bound survives it exactly if the sender keeps to the size. -/
theorem TransferState.Entries.keepsSize_iff (hs : s.Entries tempDir) (hPlain : PlainId c.fileId)
    (hWithin : WithinSize tempDir s) (hStep : transferStep sha256 s c = some t) :
    KeepsSize sha256 s c ↔ WithinSize tempDir t ∧ SignedExactly sha256 s c := by
  have hNext := hs.step hPlain hStep
  rw [hs.withinSize_iff] at hWithin
  rw [hNext.withinSize_iff, hs.signedExactly_iff hPlain]
  have hCalls : ∃ r : CallRecord, r.call = c ∧ t.calls = s.calls ++ [r] := by
    simp only [transferStep] at hStep
    obtain rfl := Option.some.inj hStep
    exact ⟨_, rfl, rfl⟩
  obtain ⟨r, rfl, hCalls⟩ := hCalls
  simp only [hCalls, ledger_concat]
  constructor
  · intro hKeeps
    refine ⟨?_, hKeeps.received⟩
    intro id hId l hl
    split at hl
    · rename_i hSame
      subst hSame
      exact hKeeps.written l hl
    · exact hWithin id hId l hl
  · rintro ⟨hWritten, hReceived⟩
    refine ⟨hPlain, ?_, hReceived⟩
    intro l hl
    refine hWritten r.fileId hPlain l ?_
    rw [if_pos rfl]
    exact hl

theorem plain_of_keepsSize {disk : Disk}
    (h : (transferMachine sha256 tempDir disk).Reaches (KeepsSize sha256) s) :
    (transferMachine sha256 tempDir disk).Reaches PlainCall s ∧ WithinSize tempDir s := by
  refine h.invariant (I := fun s => (transferMachine sha256 tempDir disk).Reaches PlainCall s ∧
    WithinSize tempDir s) ⟨.start, ?_⟩ ?_
  · intro id _ l _ hl
    cases hl
  · rintro s c t ⟨hReaches, hWithin⟩ hKeeps hStep
    refine ⟨hReaches.step hKeeps.plain hStep, ?_⟩
    exact ((entries_of_reaches hReaches).keepsSize_iff hKeeps.plain hWithin hStep |>.mp hKeeps).1

/-- As long as the senders keep to the announced sizes, no file exceeds its size
and a signature is accepted for a complete file only. The first call that does
not keep to it breaks one of the two. -/
theorem announced_size_bounds (sha256 : List UInt8 → String) (tempDir : String) (disk : Disk) :
    (∀ s, (transferMachine sha256 tempDir disk).Reaches (KeepsSize sha256) s →
      WithinSize tempDir s ∧ ∀ c, KeepsSize sha256 s c → SignedExactly sha256 s c) ∧
    ∀ s, (transferMachine sha256 tempDir disk).Reaches PlainCall s → WithinSize tempDir s →
      ∀ c t, PlainCall s c → transferStep sha256 s c = some t → ¬ KeepsSize sha256 s c →
        ¬ (WithinSize tempDir t ∧ SignedExactly sha256 s c) := by
  constructor
  · intro s hReaches
    obtain ⟨hPlain, hWithin⟩ := plain_of_keepsSize hReaches
    refine ⟨hWithin, ?_⟩
    intro c hKeeps
    have hStep : ∃ t, transferStep sha256 s c = some t := ⟨_, rfl⟩
    obtain ⟨t, hStep⟩ := hStep
    exact ((entries_of_reaches hPlain).keepsSize_iff hKeeps.plain hWithin hStep |>.mp hKeeps).2
  · intro s hReaches hWithin c t hPlain hStep hBreaks hBoth
    exact hBreaks (((entries_of_reaches hReaches).keepsSize_iff hPlain hWithin hStep).mpr hBoth)

end Run

/-! A file that grows between the scanner's size check and its last read. -/

def grownView : FileView where
  stat := some { size := 2, isDir := false, isRegular := true }
  opens := true
  sniff := some [1, 2]
  seeks := true
  reads := [[1, 2, 3]]
  lastRead := ([], .eof)

def grownResponses : List FileDownloaderResponse :=
  (process (fun _ => "text/plain") sampleDigest 1
    { driveId := "drive", fileId := sampleId 1, path := "/a" } grownView).1

def grownCalls : List Call := grownResponses.map fun resp => sampleCall 1 resp none

def grownState (n : Nat) : TransferState :=
  ((transferMachine sampleDigest "/tmp/" .empty).restrict PlainCall).after (grownCalls.take n)

theorem grown_file_accepted :
    ¬ (∀ s, (transferMachine sampleDigest "/tmp/" .empty).Reaches PlainCall s →
      WithinSize "/tmp/" s) ∧
    ¬ ∀ s, (transferMachine sampleDigest "/tmp/" .empty).Reaches PlainCall s →
      ∀ c, PlainCall s c → SignedExactly sampleDigest s c := by
  have hReaches := Machine.reaches_after_restrict (transferMachine sampleDigest "/tmp/" .empty)
    PlainCall (grownCalls.take 2)
  obtain ⟨hLedger, hContent, hAccepted⟩ :
      ledger (sampleId 1) (grownState 2).calls = some ⟨2, 3, [1, 2, 3], true⟩ ∧
      (grownState 2).disk.get? (tmpPath "/tmp/" (sampleId 1)) = some [1, 2, 3] ∧
      ((sampleCall 1 (signatureResponse "") none).run sampleDigest (grownState 2).accumulator
        (grownState 2).disk).2.2.isOk = true := by decide +kernel
  constructor
  · intro hAll
    exact absurd (hAll _ hReaches _ (plainId_text _) _ _ hLedger hContent) (by decide)
  · intro hAll
    obtain ⟨l, hl, hLength⟩ := hAll _ hReaches (sampleCall 1 (signatureResponse "") none)
      (plainId_text _) "" ⟨rfl, rfl, rfl⟩ hAccepted
    obtain rfl := Option.some.inj (hLedger.symm.trans hl)
    exact absurd hLength (by decide)

end ChatLab.Transfer
