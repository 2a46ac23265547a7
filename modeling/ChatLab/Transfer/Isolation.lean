import ChatLab.Foundation.Bag
import ChatLab.Transfer.Download

/-!
# One transfer at a time

If no earlier sender runs whenever the master opens a stream, the responses on
the shared channel are those of the newest stream, in the order in which its
worker pushed them, and what the master has read of them is on disk. No
property of the digest is needed for that. Without the condition a file can be
published with the bytes of another one.
-/

namespace ChatLab.Transfer

open Foundation Workers

/-! ## Reading a transcript -/

section Transcript

variable {sha256 : List UInt8 → String} {bytes : List UInt8}

theorem chunkResponse_injective : Function.Injective chunkResponse := by
  intro a b h
  exact Option.some.inj (congrArg FileDownloaderResponse.fileChunk h)

theorem Transcript.first {resp : FileDownloaderResponse} {rest : List FileDownloaderResponse}
    (h : Transcript sha256 bytes (resp :: rest)) :
    (∃ m, resp = { fileMetadata := some m }) ∨ ∃ e, resp = { fileError := some e } ∧ rest = [] := by
  cases h with
  | refused e => exact Or.inr ⟨e, rfl, rfl⟩
  | broken m chunks => exact Or.inl ⟨m, rfl⟩
  | complete m chunks _ => exact Or.inl ⟨m, rfl⟩

theorem chunk_or_last {front rest tail : List FileDownloaderResponse}
    {resp : FileDownloaderResponse} {chunks : List (List UInt8)} (hTail : tail.length ≤ 1)
    (h : front ++ resp :: rest = chunks.map chunkResponse ++ tail) :
    (∃ data, resp = chunkResponse data) ∨
      (tail = [resp] ∧ rest = [] ∧ front = chunks.map chunkResponse) := by
  have hChunk : resp ∈ chunks.map chunkResponse → ∃ data, resp = chunkResponse data := by
    intro hMem
    obtain ⟨data, _, rfl⟩ := List.mem_map.mp hMem
    exact ⟨data, rfl⟩
  have hMem : resp ∈ front ++ resp :: rest := List.mem_append_right _ List.mem_cons_self
  cases tail with
  | nil =>
    rw [h, List.append_nil] at hMem
    exact Or.inl (hChunk hMem)
  | cons last tail =>
    obtain rfl : tail = [] := List.eq_nil_of_length_eq_zero (by
      rw [List.length_cons] at hTail
      omega)
    obtain rfl | ⟨init, final, rfl⟩ := List.eq_nil_or_concat rest
    · obtain ⟨hFront, hResp⟩ := List.append_inj' h rfl
      exact Or.inr ⟨hResp.symm, rfl, hFront⟩
    · rw [List.concat_eq_append, ← List.cons_append, ← List.append_assoc] at h
      have hInit := (List.append_inj' h rfl).1
      have hMem' : resp ∈ front ++ resp :: init := List.mem_append_right _ List.mem_cons_self
      rw [hInit] at hMem'
      exact Or.inl (hChunk hMem')

theorem Transcript.body {m : FileMetadata} {rest : List FileDownloaderResponse}
    (h : Transcript sha256 bytes ({ fileMetadata := some m } :: rest)) :
    ∃ (chunks : List (List UInt8)) (tail : List FileDownloaderResponse),
      rest = chunks.map chunkResponse ++ tail ∧ tail.length ≤ 1 ∧
      (tail = [] ∨ tail = [signatureResponse (sha256 bytes)] ∧ chunks.flatten = bytes) := by
  cases h with
  | broken _ chunks =>
    exact ⟨chunks, [], (List.append_nil _).symm, Nat.zero_le 1, Or.inl rfl⟩
  | complete _ chunks hBytes => exact ⟨chunks, _, rfl, Nat.le_refl 1, Or.inr ⟨rfl, hBytes⟩⟩

theorem Transcript.next {m : FileMetadata} {taken : List (List UInt8)}
    {resp : FileDownloaderResponse} {rest : List FileDownloaderResponse}
    (h : Transcript sha256 bytes
      ({ fileMetadata := some m } :: (taken.map chunkResponse ++ resp :: rest))) :
    (∃ data, resp = chunkResponse data) ∨
      (resp = signatureResponse (sha256 bytes) ∧ taken.flatten = bytes ∧ rest = []) := by
  obtain ⟨chunks, tail, hBody, hLength, hTail⟩ := h.body
  obtain hChunk | ⟨hResp, hRest, hTaken⟩ := chunk_or_last hLength hBody
  · exact Or.inl hChunk
  · obtain hNone | ⟨hSignature, hBytes⟩ := hTail
    · cases hNone.symm.trans hResp
    · have hLast := List.singleton_inj.mp (hResp.symm.trans hSignature)
      refine Or.inr ⟨hLast, ?_, hRest⟩
      rw [← hBytes, chunkResponse_injective.list_map hTaken]

theorem Transcript.last {front rest : List FileDownloaderResponse} {resp : FileDownloaderResponse}
    (h : Transcript sha256 bytes (front ++ resp :: rest)) (hLast : resp.isLast = true) :
    rest = [] := by
  cases front with
  | nil =>
    obtain ⟨m, rfl⟩ | ⟨_, _, hRest⟩ := h.first
    · cases hLast
    · exact hRest
  | cons head front =>
    obtain ⟨m, rfl⟩ | ⟨_, _, hRest⟩ := h.first
    · obtain ⟨chunks, tail, hBody, hLength, _⟩ := h.body
      obtain ⟨data, rfl⟩ | ⟨_, hRest, _⟩ := chunk_or_last hLength hBody
      · cases hLast
      · exact hRest
    · exact absurd hRest (by simp)

end Transcript

/-! ## The newest stream -/

structure Stream.Quiet (st : Stream) : Prop where
  incoming : st.incoming = none
  todo : st.todo = []
  sender : st.senderRunning = false

/-- What the master has made of the responses read, with `rest` still to come:
it has read nothing or all, or the metadata and some chunks, which it holds. -/
def Taken (a : FileAccumulator) (disk : Disk) (fileId : FileID)
    (read rest : List FileDownloaderResponse) : Prop :=
  read = [] ∨ rest = [] ∨ ∃ (m : FileMetadata) (chunks : List (List UInt8)),
    read = { fileMetadata := some m } :: chunks.map chunkResponse ∧
      Receiving a disk fileId chunks.flatten

section Invariant

variable (sha256 : List UInt8 → String)

structure Untouched (s : DownloadState) (st : Stream) : Prop where
  responseChan : s.responseChan = []
  todo : st.todo = []
  toMaster : st.toMaster = []

/-- The responses of the stream's request are spread over what the master has
read, what it will receive, the shared channel and the worker. -/
structure Serving (s : DownloadState) (k : Nat) (st : Stream)
    (read unread : List FileDownloaderResponse) (bytes : List UInt8) : Prop where
  incoming : st.incoming = none
  requestChan : s.requestChan = []
  scanned : ∃ scan ∈ s.scans, scan.stream = k ∧ scan.request.fileId = st.request.fileId ∧
    scan.bytes = bytes
  toMaster : st.toMaster = unread.map toPbResponse
  transcript : Transcript sha256 bytes (read ++ (unread ++ (s.responseChan ++ st.todo)))
  taken : s.master = some k → Taken s.accumulator s.disk st.request.fileId read
    (unread ++ (s.responseChan ++ st.todo))
  sender : st.senderRunning = false → s.responseChan = [] ∧ st.todo = []
  closed : st.closed.isSome = true → st.senderRunning = false

inductive Phase (s : DownloadState) (k : Nat) (st : Stream) : Prop
  | requested (hIncoming : st.incoming =
        some { fileId := st.request.fileId, path := st.request.path })
      (hQueue : s.requestChan = []) (hUntouched : Untouched s st)
      (hSender : st.senderRunning = true) (hClosed : st.closed = none)
  | queued (request : FileDownloaderRequest) (hFile : request.fileId = st.request.fileId)
      (hIncoming : st.incoming = none) (hQueue : s.requestChan = [(k, request)])
      (hUntouched : Untouched s st) (hSender : st.senderRunning = true) (hClosed : st.closed = none)
  | rejected (hIncoming : st.incoming = none) (hQueue : s.requestChan = [])
      (hUntouched : Untouched s st) (hClosed : st.closed.isSome = true)
  | serving (read unread : List FileDownloaderResponse) (bytes : List UInt8)
      (hServing : Serving sha256 s k st read unread bytes)

structure Current (s : DownloadState) (past : List Stream) (st : Stream) : Prop where
  streams : s.streams = past ++ [st]
  quiet : ∀ p ∈ past, p.Quiet
  master : ∀ k, s.master = some k → k = past.length
  phase : Phase sha256 s past.length st

structure Fresh (s : DownloadState) : Prop where
  streams : s.streams = []
  requestChan : s.requestChan = []
  responseChan : s.responseChan = []
  master : s.master = none

def OwnBytes (s : DownloadState) : Prop :=
  ∀ p ∈ s.published, ∃ scan ∈ s.scans,
    scan.stream = p.stream ∧ scan.request.fileId = p.location.fileId ∧ scan.bytes = p.bytes

structure DownloadState.Sound (s : DownloadState) : Prop where
  shape : Fresh s ∨ ∃ past st, Current sha256 s past st
  ownBytes : OwnBytes s

variable {sha256} {s t : DownloadState} {past : List Stream} {st : Stream}

theorem Untouched.congr (h : Untouched s st) {st' : Stream}
    (hChan : t.responseChan = s.responseChan) (hTodo : st'.todo = st.todo)
    (hToMaster : st'.toMaster = st.toMaster) : Untouched t st' :=
  ⟨hChan.trans h.responseChan, hTodo.trans h.todo, hToMaster.trans h.toMaster⟩

theorem Phase.quiet {k : Nat} (h : Phase sha256 s k st) (hSender : st.senderRunning = false) :
    st.Quiet ∧ s.requestChan = [] ∧ s.responseChan = [] := by
  cases h with
  | requested _ _ _ hRunning _ => cases hSender.symm.trans hRunning
  | queued _ _ _ _ _ hRunning _ => cases hSender.symm.trans hRunning
  | rejected hIncoming hQueue hUntouched _ =>
    exact ⟨⟨hIncoming, hUntouched.todo, hSender⟩, hQueue, hUntouched.responseChan⟩
  | serving read unread bytes hServing =>
    obtain ⟨hChan, hTodo⟩ := hServing.sender hSender
    exact ⟨⟨hServing.incoming, hTodo, hSender⟩, hServing.requestChan, hChan⟩

theorem Phase.congr {k : Nat} (h : Phase sha256 s k st) (hQueue : t.requestChan = s.requestChan)
    (hChan : t.responseChan = s.responseChan) (hScans : t.scans = s.scans)
    (hMaster : t.master = some k → s.master = some k)
    (hAccumulator : t.accumulator = s.accumulator) (hDisk : t.disk = s.disk) :
    Phase sha256 t k st := by
  cases h with
  | requested hIncoming hEmpty hUntouched hSender hClosed =>
    exact .requested hIncoming (hQueue.trans hEmpty)
      (hUntouched.congr hChan rfl rfl) hSender hClosed
  | queued request hFile hIncoming hOne hUntouched hSender hClosed =>
    exact .queued request hFile hIncoming (hQueue.trans hOne)
      (hUntouched.congr hChan rfl rfl) hSender hClosed
  | rejected hIncoming hEmpty hUntouched hClosed =>
    exact .rejected hIncoming (hQueue.trans hEmpty)
      (hUntouched.congr hChan rfl rfl) hClosed
  | serving read unread bytes hServing =>
    refine .serving read unread bytes ⟨hServing.incoming, hQueue.trans hServing.requestChan, ?_,
      hServing.toMaster, ?_, ?_, ?_, hServing.closed⟩
    · exact hScans ▸ hServing.scanned
    · exact hChan ▸ hServing.transcript
    · rw [hAccumulator, hDisk, hChan]
      exact fun hReading => hServing.taken (hMaster hReading)
    · exact hChan ▸ hServing.sender

theorem Current.lookup (h : Current sha256 s past st) {k : Nat} {x : Stream}
    (hk : s.streams[k]? = some x) : (k < past.length ∧ x.Quiet) ∨ (k = past.length ∧ x = st) := by
  rw [h.streams] at hk
  refine (Bag.getElem?_concat_cases hk).imp_left ?_
  rintro ⟨hLt, hPast⟩
  exact ⟨hLt, h.quiet x (List.mem_of_getElem? hPast)⟩

theorem Current.replace (h : Current sha256 s past st) {st' : Stream}
    (hStreams : t.streams = s.streams.set past.length st')
    (hMaster : t.master = s.master ∨ t.master = none)
    (hPhase : Phase sha256 t past.length st') : Current sha256 t past st' := by
  refine ⟨?_, h.quiet, ?_, hPhase⟩
  · rw [hStreams, h.streams, List.set_append_right _ _ (Nat.le_refl _), Nat.sub_self,
      List.set_cons_zero]
  · intro k hk
    obtain hSame | hNone := hMaster
    · exact h.master k (hSame ▸ hk)
    · cases hNone.symm.trans hk

/-! ## Steps of the scanner's side -/

theorem Current.receive (h : Current sha256 s past st) {k : Nat} {x : Stream}
    (hk : s.streams[k]? = some x) (hStep : Transfer.receive s k x = some t) :
    ∃ st', Current sha256 t past st' := by
  obtain ⟨_, hQuiet⟩ | ⟨rfl, rfl⟩ := h.lookup hk
  · simp only [Transfer.receive, hQuiet.incoming] at hStep
    cases hStep
  · cases h.phase with
    | requested hIncoming hQueue hUntouched hSender hClosed =>
      simp only [Transfer.receive, hIncoming] at hStep
      split at hStep
      · cases hStep
        refine ⟨_, h.replace rfl (Or.inl rfl) ?_⟩
        refine Phase.queued
          (fromPbRequest { fileId := x.request.fileId, path := x.request.path }) rfl rfl ?_
          (hUntouched.congr rfl rfl rfl) hSender hClosed
        rw [hQueue]
        rfl
      · cases hStep
        refine ⟨_, h.replace rfl (Or.inl rfl) ?_⟩
        refine Phase.rejected rfl hQueue
          (hUntouched.congr rfl rfl rfl) ?_
        rw [hClosed]
        rfl
    | queued _ _ hIncoming _ _ _ _ =>
      simp only [Transfer.receive, hIncoming] at hStep
      cases hStep
    | rejected hIncoming _ _ _ =>
      simp only [Transfer.receive, hIncoming] at hStep
      cases hStep
    | serving _ _ _ hServing =>
      simp only [Transfer.receive, hServing.incoming] at hStep
      cases hStep

theorem Current.pick {detect : List UInt8 → String} {maxFileSizeMb : Int} {view : FileView}
    (h : Current sha256 s past st)
    (hStep : Transfer.pick detect sha256 maxFileSizeMb s view = some t) :
    ∃ st', Current sha256 t past st' := by
  cases h.phase with
  | queued request hFile hIncoming hQueue hUntouched hSender hClosed =>
    have hLast : s.streams[past.length]? = some st := by
      rw [h.streams, List.getElem?_concat_length]
    simp only [Transfer.pick, hQueue, hLast] at hStep
    cases hStep
    refine ⟨_, h.replace rfl (Or.inl rfl) ?_⟩
    refine Phase.serving [] [] (process detect sha256 maxFileSizeMb request view).2
      ⟨hIncoming, rfl, ?_, hUntouched.toMaster, ?_, ?_, ?_, ?_⟩
    · exact ⟨_, List.mem_append_right _ (List.mem_singleton_self _), rfl, hFile, rfl⟩
    · dsimp only
      rw [hUntouched.responseChan]
      exact process_transcript detect sha256 maxFileSizeMb request view
    · exact fun _ => Or.inl rfl
    · intro hEnded
      cases hSender.symm.trans hEnded
    · intro hEnded
      rw [hClosed] at hEnded
      cases hEnded
  | requested _ hQueue _ _ _ =>
    simp only [Transfer.pick, hQueue] at hStep
    cases hStep
  | rejected _ hQueue _ _ =>
    simp only [Transfer.pick, hQueue] at hStep
    cases hStep
  | serving _ _ _ hServing =>
    simp only [Transfer.pick, hServing.requestChan] at hStep
    cases hStep

theorem Current.push (h : Current sha256 s past st) {k : Nat} {x : Stream}
    (hk : s.streams[k]? = some x) (hStep : Transfer.push s k x = some t) :
    ∃ st', Current sha256 t past st' := by
  have hTodo : ∀ y : Stream, y.todo = [] → Transfer.push s k y = some t → False := by
    intro y hNil hPush
    simp only [Transfer.push, hNil] at hPush
    cases hPush
  obtain ⟨_, hQuiet⟩ | ⟨rfl, rfl⟩ := h.lookup hk
  · exact (hTodo x hQuiet.todo hStep).elim
  · cases h.phase with
    | requested _ _ hUntouched _ _ => exact (hTodo x hUntouched.todo hStep).elim
    | queued _ _ _ _ hUntouched _ _ => exact (hTodo x hUntouched.todo hStep).elim
    | rejected _ _ hUntouched _ => exact (hTodo x hUntouched.todo hStep).elim
    | serving read unread bytes hServing =>
      cases hList : x.todo with
      | nil => exact (hTodo x hList hStep).elim
      | cons resp rest =>
        simp only [Transfer.push, hList] at hStep
        cases hStep
        have hOrder : s.responseChan ++ [resp] ++ rest = s.responseChan ++ x.todo := by
          rw [List.append_assoc, hList]
          rfl
        refine ⟨_, h.replace rfl (Or.inl rfl) ?_⟩
        refine Phase.serving read unread bytes ⟨hServing.incoming, hServing.requestChan,
          hServing.scanned, hServing.toMaster, ?_, ?_, ?_, hServing.closed⟩
        · exact hOrder ▸ hServing.transcript
        · exact hOrder ▸ hServing.taken
        · intro hEnded
          cases hList.symm.trans (hServing.sender hEnded).2

theorem Current.pop (h : Current sha256 s past st) {k : Nat} {x : Stream}
    (hk : s.streams[k]? = some x) (hStep : Transfer.pop s k x = some t) :
    ∃ st', Current sha256 t past st' := by
  rw [Transfer.pop] at hStep
  split at hStep
  · rename_i resp rest hSender hChan
    obtain ⟨_, hQuiet⟩ | ⟨rfl, rfl⟩ := h.lookup hk
    · cases hSender.symm.trans hQuiet.sender
    · cases h.phase with
      | requested _ _ hUntouched _ _ => cases hChan.symm.trans hUntouched.responseChan
      | queued _ _ _ _ hUntouched _ _ => cases hChan.symm.trans hUntouched.responseChan
      | rejected _ _ hUntouched _ => cases hChan.symm.trans hUntouched.responseChan
      | serving read unread bytes hServing =>
        have hOpen : ¬ x.closed.isSome = true :=
          fun hClosed => Bool.noConfusion (hSender.symm.trans (hServing.closed hClosed))
        rw [if_neg hOpen] at hStep
        cases hStep
        have hOrder : (unread ++ [resp]) ++ (rest ++ x.todo) =
            unread ++ (s.responseChan ++ x.todo) := by
          rw [List.append_assoc, hChan]
          rfl
        refine ⟨_, h.replace rfl (Or.inl rfl) ?_⟩
        refine Phase.serving read (unread ++ [resp]) bytes ⟨hServing.incoming,
          hServing.requestChan, hServing.scanned, ?_, ?_, ?_, ?_, fun hClosed => (hOpen hClosed).elim⟩
        · dsimp only
          rw [hServing.toMaster, List.map_append, List.map_singleton]
        · exact hOrder ▸ hServing.transcript
        · exact hOrder ▸ hServing.taken
        · intro hEnded
          have hLast : resp.isLast = true := by simpa using hEnded
          have hTranscript := hServing.transcript
          rw [hChan, List.cons_append, ← List.append_assoc] at hTranscript
          exact List.append_eq_nil_iff.mp (hTranscript.last hLast)
  · cases hStep

theorem Current.cancel (h : Current sha256 s past st) {k : Nat} {x : Stream}
    (hk : s.streams[k]? = some x) (hStep : Transfer.cancel s k x = some t) :
    ∃ st', Current sha256 t past st' := by
  rw [Transfer.cancel] at hStep
  split at hStep
  · rename_i hBoth
    obtain ⟨hSender, hClosed⟩ := Bool.and_eq_true_iff.mp hBoth
    obtain ⟨_, hQuiet⟩ | ⟨rfl, rfl⟩ := h.lookup hk
    · cases hSender.symm.trans hQuiet.sender
    · cases h.phase with
      | requested _ _ _ _ hOpen =>
        rw [hOpen] at hClosed
        cases hClosed
      | queued _ _ _ _ _ _ hOpen =>
        rw [hOpen] at hClosed
        cases hClosed
      | rejected hIncoming hQueue hUntouched _ =>
        cases hStep
        exact ⟨_, h.replace rfl (Or.inl rfl) (Phase.rejected hIncoming hQueue
          (hUntouched.congr rfl rfl rfl) hClosed)⟩
      | serving _ _ _ hServing => cases hSender.symm.trans (hServing.closed hClosed)
  · cases hStep

theorem Current.close (h : Current sha256 s past st) {k : Nat} {x : Stream}
    (hk : s.streams[k]? = some x) (hStep : Transfer.close s k x = some t) :
    ∃ past' st', Current sha256 t past' st' := by
  rw [Transfer.close] at hStep
  split at hStep
  · rename_i hBoth
    obtain ⟨hEnded, hOpen⟩ := Bool.and_eq_true_iff.mp hBoth
    have hSender : x.senderRunning = false := by simpa using hEnded
    cases hStep
    obtain ⟨hLt, hQuiet⟩ | ⟨rfl, rfl⟩ := h.lookup hk
    · -- the call of an earlier stream returns, and its stream stays quiet
      refine ⟨past.set k { x with closed := some .eof }, st, ?_, ?_, ?_, ?_⟩
      · dsimp only
        rw [h.streams, List.set_append_left _ _ hLt]
      · refine Bag.forall_mem_set h.quiet ?_ k
        exact ⟨hQuiet.incoming, hQuiet.todo, hQuiet.sender⟩
      · rw [List.length_set]
        exact h.master
      · rw [List.length_set]
        exact h.phase.congr rfl rfl rfl id rfl rfl
    · cases h.phase with
      | requested _ _ _ hRunning _ => cases hSender.symm.trans hRunning
      | queued _ _ _ _ _ hRunning _ => cases hSender.symm.trans hRunning
      | rejected _ _ _ hClosed => simp_all
      | serving read unread bytes hServing =>
        refine ⟨past, _, h.replace rfl (Or.inl rfl) (Phase.serving read unread bytes ?_)⟩
        exact { hServing with closed := fun _ => hSender }
  · cases hStep

/-! ## Steps of the master -/

theorem Taken.next {join : String → String → String} {a a' : FileAccumulator}
    {disk disk' : Disk} {driveId : String} {fileId : FileID} {io : IoOutcome}
    {out : Option TmpFileLocation} {read rest : List FileDownloaderResponse}
    {resp : FileDownloaderResponse} {bytes : List UInt8}
    (hTranscript : Transcript sha256 bytes (read ++ resp :: rest))
    (h : Taken a disk fileId read (resp :: rest))
    (hProcess : processResponse join sha256 a disk driveId fileId
      (fromPbResponse (toPbResponse resp)) io = (a', disk', .ok out)) :
    Taken a' disk' fileId (read ++ [resp]) rest ∧
      ∀ location, out = some location →
        location.fileId = fileId ∧ disk'.get? location.tmpFilePath = some bytes := by
  obtain rfl | hNone | ⟨m, chunks, rfl, hReceiving⟩ := h
  · obtain ⟨m, rfl⟩ | ⟨e, rfl, rfl⟩ := hTranscript.first
    · obtain ⟨rfl, hReceiving⟩ := processResponse_metadata hProcess
      exact ⟨Or.inr (Or.inr ⟨m, [], rfl, hReceiving⟩), nofun⟩
    · obtain rfl := processResponse_error hProcess
      exact ⟨Or.inr (Or.inl rfl), nofun⟩
  · cases hNone
  · obtain ⟨data, rfl⟩ | ⟨rfl, hBytes, rfl⟩ := hTranscript.next
    · obtain ⟨rfl, hMore⟩ := processResponse_chunk hReceiving hProcess
      refine ⟨Or.inr (Or.inr ⟨m, chunks ++ [data], ?_, ?_⟩), nofun⟩
      · rw [List.map_append]
        rfl
      · rw [List.flatten_append, List.flatten_singleton]
        exact hMore
    · obtain ⟨location, rfl, _, hFile, hDisk⟩ := processResponse_signature hReceiving hProcess
      refine ⟨Or.inr (Or.inl rfl), ?_⟩
      intro location' hSame
      obtain rfl := Option.some.inj hSame
      exact ⟨hFile, hBytes ▸ hDisk⟩

theorem OwnBytes.mono (h : OwnBytes s) (hPublished : t.published = s.published)
    (hScans : s.scans ⊆ t.scans) : OwnBytes t := by
  intro p hp
  rw [hPublished] at hp
  obtain ⟨scan, hScan, hMatch⟩ := h p hp
  exact ⟨scan, hScans hScan, hMatch⟩

theorem Serving.read {k : Nat} {read unread : List FileDownloaderResponse}
    {resp : FileDownloaderResponse} {bytes : List UInt8}
    (h : Serving sha256 s k st read (resp :: unread) bytes) (hQueue : t.requestChan = s.requestChan)
    (hChan : t.responseChan = s.responseChan) (hScans : t.scans = s.scans)
    (hTaken : t.master = some k → Taken t.accumulator t.disk st.request.fileId (read ++ [resp])
      (unread ++ (s.responseChan ++ st.todo))) :
    Serving sha256 t k { st with toMaster := unread.map toPbResponse } (read ++ [resp]) unread
      bytes := by
  refine ⟨h.incoming, hQueue.trans h.requestChan, hScans ▸ h.scanned, rfl, ?_, hChan ▸ hTaken,
    hChan ▸ h.sender, h.closed⟩
  rw [hChan, List.append_assoc]
  exact h.transcript

theorem Current.recv {join : String → String → String} {io : IoOutcome}
    (h : Current sha256 s past st) (hOwn : OwnBytes s) {k : Nat} {x : Stream}
    (hMaster : s.master = some k) (hk : s.streams[k]? = some x)
    (hStep : Transfer.recv sha256 join s k x io = some t) :
    (∃ st', Current sha256 t past st') ∧ OwnBytes t := by
  obtain rfl := h.master k hMaster
  obtain ⟨hLt, _⟩ | ⟨_, rfl⟩ := h.lookup hk
  · omega
  cases hList : x.toMaster with
  | nil =>
    simp only [Transfer.recv, hList] at hStep
    split at hStep
    · cases hStep
      refine ⟨⟨x, h.streams, h.quiet, nofun, ?_⟩, hOwn.mono rfl (List.Subset.refl _)⟩
      exact h.phase.congr rfl rfl rfl nofun rfl rfl
    · cases hStep
  | cons control rest =>
    cases h.phase with
    | requested _ _ hUntouched _ _ => cases hList.symm.trans hUntouched.toMaster
    | queued _ _ _ _ hUntouched _ _ => cases hList.symm.trans hUntouched.toMaster
    | rejected _ _ hUntouched _ => cases hList.symm.trans hUntouched.toMaster
    | serving read unread bytes hServing =>
      have hUnread := hList.symm.trans hServing.toMaster
      cases unread with
      | nil => cases hUnread
      | cons resp unread =>
        obtain ⟨rfl, rfl⟩ := List.cons.inj hUnread
        simp only [Transfer.recv, hList] at hStep
        split at hStep
        · cases hStep
          refine ⟨⟨_, h.replace rfl (Or.inr rfl) ?_⟩, hOwn.mono rfl (List.Subset.refl _)⟩
          exact .serving _ unread bytes (hServing.read rfl rfl rfl nofun)
        · rename_i hProcess
          obtain ⟨hNext, _⟩ := (hServing.taken hMaster).next hServing.transcript hProcess
          cases hStep
          refine ⟨⟨_, h.replace rfl (Or.inl rfl) ?_⟩, hOwn.mono rfl (List.Subset.refl _)⟩
          exact .serving _ unread bytes (hServing.read rfl rfl rfl fun _ => hNext)
        · rename_i location hProcess
          obtain ⟨hNext, hPublish⟩ := (hServing.taken hMaster).next hServing.transcript hProcess
          obtain ⟨hFile, hDisk⟩ := hPublish location rfl
          cases hStep
          refine ⟨⟨_, h.replace rfl (Or.inl rfl) ?_⟩, ?_⟩
          · exact .serving _ unread bytes (hServing.read rfl rfl rfl fun _ => hNext)
          · obtain ⟨scan, hScan, hStream, hScanFile, hScanBytes⟩ := hServing.scanned
            refine Bag.forall_mem_concat hOwn ⟨scan, hScan, hStream, ?_, ?_⟩
            · exact hScanFile.trans hFile.symm
            · rw [hScanBytes, hDisk, Option.getD_some]

theorem DownloadState.Sound.idle (h : s.Sound sha256)
    (hDone : ∀ st ∈ s.streams, st.senderRunning = false) :
    (∀ st ∈ s.streams, st.Quiet) ∧ s.requestChan = [] ∧ s.responseChan = [] := by
  obtain hFresh | ⟨past, last, hCurrent⟩ := h.shape
  · rw [hFresh.streams]
    exact ⟨nofun, hFresh.requestChan, hFresh.responseChan⟩
  · rw [hCurrent.streams] at hDone ⊢
    obtain ⟨hQuiet, hChannels⟩ := hCurrent.phase.quiet
      (hDone last (List.mem_append_right _ (List.mem_singleton_self last)))
    exact ⟨Bag.forall_mem_concat hCurrent.quiet hQuiet, hChannels⟩

theorem DownloadState.Sound.openStream {req : FileDownloaderRequest} (h : s.Sound sha256)
    (hDone : ∀ st ∈ s.streams, st.senderRunning = false)
    (hStep : Transfer.openStream s req = some t) : t.Sound sha256 := by
  obtain ⟨hQuiet, hQueue, hChan⟩ := h.idle hDone
  rw [Transfer.openStream] at hStep
  split at hStep
  · cases hStep
  · cases hStep
    refine ⟨Or.inr ⟨s.streams, _, rfl, hQuiet, ?_, ?_⟩,
      h.ownBytes.mono rfl (List.Subset.refl _)⟩
    · intro k hk
      exact (Option.some.inj hk).symm
    · exact .requested rfl hQueue ⟨hChan, rfl, rfl⟩ rfl rfl

section Machine

variable {detect : List UInt8 → String} {maxFileSizeMb : Int} {join : String → String → String}
  {action : DownloadAction}

theorem Fresh.no_step (h : Fresh s)
    (hStep : downloadStep detect sha256 maxFileSizeMb join s action = some t) :
    ∃ req, action = .openStream req := by
  cases action with
  | openStream req => exact ⟨req, rfl⟩
  | pick view =>
    simp only [downloadStep, Transfer.pick, h.requestChan] at hStep
    cases hStep
  | recv io =>
    simp only [downloadStep, h.master] at hStep
    cases hStep
  | receive k | push k | pop k | cancel k | close k =>
    simp only [downloadStep, h.streams] at hStep
    cases hStep

theorem downloadStep_frame (hStep : downloadStep detect sha256 maxFileSizeMb join s action = some t)
    (hOther : ∀ io, action ≠ .recv io) : t.published = s.published ∧ s.scans ⊆ t.scans := by
  cases action with
  | recv io => exact absurd rfl (hOther io)
  | openStream req =>
    simp only [downloadStep, Transfer.openStream] at hStep
    split at hStep <;> cases hStep
    exact ⟨rfl, List.Subset.refl _⟩
  | pick view =>
    simp only [downloadStep, Transfer.pick] at hStep
    split at hStep
    · cases hStep
    · split at hStep <;> cases hStep
      exact ⟨rfl, List.subset_append_left _ _⟩
  | receive k =>
    obtain ⟨x, _, hNext⟩ := Option.bind_eq_some_iff.mp hStep
    rw [Transfer.receive] at hNext
    split at hNext
    · cases hNext
    · dsimp only at hNext
      split at hNext <;> cases hNext <;> exact ⟨rfl, List.Subset.refl _⟩
  | push k =>
    obtain ⟨x, _, hNext⟩ := Option.bind_eq_some_iff.mp hStep
    rw [Transfer.push] at hNext
    split at hNext <;> cases hNext
    exact ⟨rfl, List.Subset.refl _⟩
  | pop k =>
    obtain ⟨x, _, hNext⟩ := Option.bind_eq_some_iff.mp hStep
    rw [Transfer.pop] at hNext
    split at hNext
    · split at hNext <;> cases hNext <;> exact ⟨rfl, List.Subset.refl _⟩
    · cases hNext
  | cancel k =>
    obtain ⟨x, _, hNext⟩ := Option.bind_eq_some_iff.mp hStep
    rw [Transfer.cancel] at hNext
    split at hNext <;> cases hNext
    exact ⟨rfl, List.Subset.refl _⟩
  | close k =>
    obtain ⟨x, _, hNext⟩ := Option.bind_eq_some_iff.mp hStep
    rw [Transfer.close] at hNext
    split at hNext <;> cases hNext
    exact ⟨rfl, List.Subset.refl _⟩

theorem Current.step (h : Current sha256 s past st)
    (hStep : downloadStep detect sha256 maxFileSizeMb join s action = some t)
    (hOpen : ∀ req, action ≠ .openStream req) (hOther : ∀ io, action ≠ .recv io) :
    ∃ past' st', Current sha256 t past' st' := by
  cases action with
  | openStream req => exact absurd rfl (hOpen req)
  | recv io => exact absurd rfl (hOther io)
  | pick view => exact ⟨past, h.pick hStep⟩
  | receive k =>
    obtain ⟨x, hk, hNext⟩ := Option.bind_eq_some_iff.mp hStep
    exact ⟨past, h.receive hk hNext⟩
  | push k =>
    obtain ⟨x, hk, hNext⟩ := Option.bind_eq_some_iff.mp hStep
    exact ⟨past, h.push hk hNext⟩
  | pop k =>
    obtain ⟨x, hk, hNext⟩ := Option.bind_eq_some_iff.mp hStep
    exact ⟨past, h.pop hk hNext⟩
  | cancel k =>
    obtain ⟨x, hk, hNext⟩ := Option.bind_eq_some_iff.mp hStep
    exact ⟨past, h.cancel hk hNext⟩
  | close k =>
    obtain ⟨x, hk, hNext⟩ := Option.bind_eq_some_iff.mp hStep
    exact h.close hk hNext

theorem downloadStep_sound (h : s.Sound sha256) (hDone : SendersDone s action)
    (hStep : downloadStep detect sha256 maxFileSizeMb join s action = some t) :
    t.Sound sha256 := by
  obtain hFresh | ⟨past, st, hCurrent⟩ := h.shape
  · obtain ⟨req, rfl⟩ := hFresh.no_step hStep
    exact h.openStream hDone hStep
  · by_cases hOpen : ∃ req, action = .openStream req
    · obtain ⟨req, rfl⟩ := hOpen
      exact h.openStream hDone hStep
    · by_cases hRecv : ∃ io, action = .recv io
      · obtain ⟨io, rfl⟩ := hRecv
        obtain ⟨k, hMaster, hRest⟩ := Option.bind_eq_some_iff.mp hStep
        obtain ⟨x, hk, hNext⟩ := Option.bind_eq_some_iff.mp hRest
        obtain ⟨hNew, hOwn⟩ := hCurrent.recv h.ownBytes hMaster hk hNext
        exact ⟨Or.inr ⟨past, hNew⟩, hOwn⟩
      · have hOther : ∀ io, action ≠ .recv io := fun io hEq => hRecv ⟨io, hEq⟩
        obtain ⟨hPublished, hScans⟩ := downloadStep_frame hStep hOther
        exact ⟨Or.inr (hCurrent.step hStep (fun req hEq => hOpen ⟨req, hEq⟩) hOther),
          h.ownBytes.mono hPublished hScans⟩

theorem download_sound_of_reaches {tempDir : String}
    (h : (downloadMachine detect sha256 maxFileSizeMb join tempDir).Reaches SendersDone s) :
    s.Sound sha256 := by
  refine Machine.Reaches.invariant (I := DownloadState.Sound sha256) ?_
    (fun _ _ _ hs hDone hStep => downloadStep_sound hs hDone hStep) h
  exact ⟨Or.inl ⟨rfl, rfl, rfl, rfl⟩, nofun⟩

/-- In every run in which the master opens a stream only when the senders of
all earlier streams have ended, each published file has the bytes that the
scanner read for it, and for the request of that very download. -/
theorem published_bytes_scanned {tempDir : String}
    (h : (downloadMachine detect sha256 maxFileSizeMb join tempDir).Reaches SendersDone s) :
    s.Faithful ∧ ∀ p ∈ s.published, ∃ scan ∈ s.scans,
      scan.stream = p.stream ∧ scan.request.fileId = p.location.fileId ∧ scan.bytes = p.bytes := by
  have hOwn := (download_sound_of_reaches h).ownBytes
  refine ⟨?_, hOwn⟩
  intro p hp
  obtain ⟨scan, hScan, _, hMatch⟩ := hOwn p hp
  exact ⟨scan, hScan, hMatch⟩

end Machine

end Invariant

/-! ## Two downloads that overlap -/

instance (s : DownloadState) (action : DownloadAction) : Decidable (SendersDone s action) := by
  cases action <;> (unfold SendersDone; infer_instance)

instance (s : DownloadState) : Decidable s.Faithful :=
  inferInstanceAs (Decidable (∀ p ∈ s.published, ∃ scan ∈ s.scans,
    scan.request.fileId = p.location.fileId ∧ scan.bytes = p.bytes))

def sampleSha (bytes : List UInt8) : String :=
  String.ofList (bytes.map fun b => Char.ofNat b.toNat)

theorem sampleSha_injective : Function.Injective sampleSha := by
  intro a b h
  have hChar : Function.Injective fun b : UInt8 => Char.ofNat b.toNat := by
    intro c d hSame
    have hNat : ∀ e : UInt8, (Char.ofNat e.toNat).toNat = e.toNat := by
      intro e
      have hLt := e.toNat_lt
      have hValid : e.toNat.isValidChar := Or.inl (by omega)
      rw [Char.ofNat, dif_pos hValid]
      rfl
    have hEq := congrArg Char.toNat hSame
    simp only [hNat] at hEq
    exact UInt8.toNat_inj.mp hEq
  exact hChar.list_map (String.ofList_injective h)

abbrev sampleDownloads : Machine DownloadState DownloadAction :=
  downloadMachine (fun _ => "application/pdf") sampleSha 1 (fun dir name => dir ++ "/" ++ name) "tmp"

def sampleView (content : List UInt8) : FileView :=
  { stat := some { size := content.length.toUInt64, isDir := false, isRegular := true },
    opens := true, sniff := some content, seeks := true, reads := [content], lastRead := ([], .eof) }

def sampleRequest (fileId : FileID) : FileDownloaderRequest :=
  { driveId := "d", fileId := fileId, path := "/" ++ fileId }

def ioOk : IoOutcome := { create := true, write := none }

/-- The temporary file of the first download cannot be created. The master goes
on to the second, whose sender takes its own metadata and then the chunk and
the signature of the first. -/
def overlappingRun : List DownloadAction :=
  [.openStream (sampleRequest "f1"), .receive 0, .pick (sampleView [1]), .push 0, .pop 0,
    .recv { create := false, write := none },
    .openStream (sampleRequest "f2"), .receive 1, .pick (sampleView [2]), .push 1, .pop 1,
    .push 0, .pop 1, .push 0, .pop 1, .recv ioOk, .recv ioOk, .recv ioOk]

theorem published_foreign_bytes :
    ¬ ∀ sha256 : List UInt8 → String, Function.Injective sha256 → ∀ s : DownloadState,
      (downloadMachine (fun _ => "application/pdf") sha256 1
        (fun dir name => dir ++ "/" ++ name) "tmp").Reachable s → s.Faithful := by
  intro hAlways
  have hFaithful := hAlways sampleSha sampleSha_injective (sampleDownloads.after overlappingRun)
    (Machine.reachable_after _)
  exact absurd hFaithful (by decide +kernel)

def sequentialRun : List DownloadAction :=
  [.openStream (sampleRequest "f1"), .receive 0, .pick (sampleView [1]), .push 0, .pop 0,
    .push 0, .pop 0, .push 0, .pop 0, .close 0, .recv ioOk, .recv ioOk, .recv ioOk, .recv ioOk,
    .openStream (sampleRequest "f2"), .receive 1, .pick (sampleView [2]), .push 1, .pop 1,
    .push 1, .pop 1, .push 1, .pop 1, .recv ioOk, .recv ioOk, .recv ioOk]

theorem published_bytes_sequential :
    ((sampleDownloads.restrict SendersDone).after sequentialRun).published.map
        (fun p => (p.location.fileId, p.bytes)) = [("f1", [1]), ("f2", [2])] ∧
      ((sampleDownloads.restrict SendersDone).after sequentialRun).Faithful :=
  ⟨by decide +kernel,
    (published_bytes_scanned (Machine.reaches_after_restrict sampleDownloads SendersDone
      sequentialRun)).1⟩

end ChatLab.Transfer
