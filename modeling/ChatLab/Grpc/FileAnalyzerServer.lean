import ChatLab.Foundation.Bag
import ChatLab.Foundation.Machine
import ChatLab.Services.AnalyzerService

/-!
# The summary at the end of an analysis stream

Scanners send their requests on streams that the server handles side by side.
Each accepted request is put on the event channel and then added to two
counters, in two atomic operations. The counters belong to the process: they
are shared by all streams and never reset. At the end of a stream they are
loaded one after the other and sent as the summary of that stream.

A send to the closed event channel ends the process and is no step here. The
logs of what was put on the channel and added to the counters are ghosts.
-/

namespace ChatLab.Grpc.FileAnalyzer

open Foundation Services Sink

/-! ## Requests -/

structure FileAnalyzerRequestPb where
  path : String
  driveId : String
  size : UInt64
  attributes : UInt32
  mimeType : String
  magicBytes : List UInt8
  -- none is the absent message, which reads as the epoch
  scannedAt : Option Int
  -- the number of the enum
  sourceType : Int32
deriving DecidableEq

def toSourceType (st : Int32) : SourceType :=
  if st = 1 then .localFixed
  else if st = 2 then .removable
  else if st = 3 then .network
  else .unspecified

def fromPbFileAnalyzerRequest (req : FileAnalyzerRequestPb) : FileAnalyzerRequest where
  path := req.path
  driveId := req.driveId
  size := req.size
  attributes := req.attributes
  mimeType := req.mimeType
  magicBytes := req.magicBytes
  scannedAt := req.scannedAt.getD 0
  sourceType := toSourceType req.sourceType

/-! ## Streams -/

structure CountAnalyzedFiles where
  filesReceived : UInt64
  bytesProcessed : UInt64
deriving DecidableEq

structure FileAnalyzerResponse where
  filesReceived : UInt64
  bytesProcessed : UInt64
  endedAt : Int
deriving DecidableEq

/-- Sizes with the stream that they came from. -/
abbrev Ledger := List (Nat × UInt64)

/-- A response with what had been added to each counter when it was loaded. -/
structure Summary where
  response : FileAnalyzerResponse
  counted : Ledger
  summed : Ledger
deriving DecidableEq

inductive Phase
  | receiving
  -- in the `select` of the service's `Analyze`
  | submitting (request : FileAnalyzerRequest)
  | addingFile (size : UInt64)
  | addingBytes (size : UInt64)
  | loadingFiles
  | loadingBytes (filesReceived : UInt64) (counted : Ledger)
  -- none is a stream that ended with an error
  | ended (summary : Option Summary)
deriving DecidableEq

structure ServerState where
  countAnalyzedFiles : CountAnalyzedFiles
  streams : List Phase
  eventChan : List (Nat × FileAnalyse)
  counted : Ledger
  summed : Ledger
deriving DecidableEq

/-- What `stream.Recv` returns. -/
inductive Received
  | eof
  | failed
  | request (r : Option FileAnalyzerRequestPb)
deriving DecidableEq

inductive Action
  | connect
  | recv (k : Nat) (message : Received)
  | send (k : Nat) (id : UUID)
  | contextDone (k : Nat)
  | addFile (k : Nat)
  | addBytes (k : Nat)
  | loadFiles (k : Nat)
  | loadBytes (k : Nat) (now : Int)
deriving DecidableEq

def ServerState.put (s : ServerState) (k : Nat) (phase : Phase) : ServerState :=
  { s with streams := s.streams.set k phase }

/-- A message received: a request that the validator refuses is only logged. -/
def receive : Received → Phase
  | .eof => .loadingFiles
  | .failed => .ended none
  | .request none => .receiving
  | .request (some r) =>
    if (fromPbFileAnalyzerRequest r).validate = [] then .submitting (fromPbFileAnalyzerRequest r)
    else .receiving

def step (s : ServerState) : Action → Option ServerState
  | .connect => some { s with streams := s.streams ++ [Phase.receiving] }
  | .recv k message =>
    match s.streams[k]? with
    | some .receiving => some (s.put k (receive message))
    | _ => none
  | .send k id =>
    match s.streams[k]? with
    | some (.submitting request) => some { s.put k (.addingFile request.size) with
        eventChan := s.eventChan ++ [(k, toEvent request id)] }
    | _ => none
  | .contextDone k =>
    match s.streams[k]? with
    | some (.submitting _) => some (s.put k (.ended none))
    | _ => none
  | .addFile k =>
    match s.streams[k]? with
    | some (.addingFile size) => some { s.put k (.addingBytes size) with
        countAnalyzedFiles := { s.countAnalyzedFiles with
          filesReceived := s.countAnalyzedFiles.filesReceived + 1 }
        counted := s.counted ++ [(k, size)] }
    | _ => none
  | .addBytes k =>
    match s.streams[k]? with
    | some (.addingBytes size) => some { s.put k .receiving with
        countAnalyzedFiles := { s.countAnalyzedFiles with
          bytesProcessed := s.countAnalyzedFiles.bytesProcessed + size }
        summed := s.summed ++ [(k, size)] }
    | _ => none
  | .loadFiles k =>
    match s.streams[k]? with
    | some .loadingFiles =>
      some (s.put k (.loadingBytes s.countAnalyzedFiles.filesReceived s.counted))
    | _ => none
  | .loadBytes k now =>
    match s.streams[k]? with
    | some (.loadingBytes filesReceived counted) => some (s.put k (.ended (some {
        response := { filesReceived := filesReceived
                      bytesProcessed := s.countAnalyzedFiles.bytesProcessed
                      endedAt := now }
        counted := counted
        summed := s.summed })))
    | _ => none

def machine : Machine ServerState Action where
  start := { countAnalyzedFiles := { filesReceived := 0, bytesProcessed := 0 }, streams := [],
             eventChan := [], counted := [], summed := [] }
  step := step

/-! ## What belongs to a stream -/

def ServerState.sent (s : ServerState) : Ledger := s.eventChan.map fun e => (e.1, e.2.size)

def own (k : Nat) (log : Ledger) : List UInt64 := (log.filter fun e => e.1 = k).map Prod.snd

def others (k : Nat) (log : Ledger) : List UInt64 := (log.filter fun e => e.1 ≠ k).map Prod.snd

def total (sizes : List UInt64) : Nat := sizes.foldr (fun size n => size.toNat + n) 0

theorem own_concat_self (k : Nat) (log : Ledger) (size : UInt64) :
    own k (log ++ [(k, size)]) = own k log ++ [size] := by
  simp [own]

theorem own_concat_of_ne {k j : Nat} (h : j ≠ k) (log : Ledger) (size : UInt64) :
    own j (log ++ [(k, size)]) = own j log := by
  simp [own, h.symm]

theorem total_append (a b : List UInt64) : total (a ++ b) = total a + total b := by
  induction a with
  | nil => exact (Nat.zero_add _).symm
  | cons size a ih =>
    change size.toNat + total (a ++ b) = size.toNat + total a + total b
    omega

theorem total_split (k : Nat) (log : Ledger) :
    total (log.map Prod.snd) = total (own k log) + total (others k log) := by
  induction log with
  | nil => rfl
  | cons e log ih =>
    by_cases h : e.1 = k
    · have hOwn : own k (e :: log) = e.2 :: own k log := by simp [own, h]
      have hOthers : others k (e :: log) = others k log := by simp [others, h]
      rw [hOwn, hOthers]
      change e.2.toNat + total (log.map Prod.snd) = e.2.toNat + total (own k log) + _
      omega
    · have hOwn : own k (e :: log) = own k log := by simp [own, h]
      have hOthers : others k (e :: log) = e.2 :: others k log := by simp [others, h]
      rw [hOwn, hOthers]
      change e.2.toNat + total (log.map Prod.snd) = _ + (e.2.toNat + total (others k log))
      omega

theorem length_split (k : Nat) (log : Ledger) :
    log.length = (own k log).length + (others k log).length := by
  have hOthers : log.filter (fun e => e.1 ≠ k) =
      log.filter fun e : Nat × UInt64 => !decide (e.1 = k) := by
    refine List.filter_congr ?_
    intro e _
    exact decide_not
  rw [own, others, List.length_map, List.length_map, hOthers]
  exact List.length_eq_length_filter_add fun e : Nat × UInt64 => decide (e.1 = k)

/-- What stands in the logs for a stream, by its phase. -/
def Phase.Fits (k : Nat) (sent counted summed : List UInt64) : Phase → Prop
  | .addingFile size => sent = counted ++ [size] ∧ sent = summed ++ [size]
  | .addingBytes size => sent = counted ∧ sent = summed ++ [size]
  | .loadingBytes filesReceived log =>
    sent = counted ∧ sent = summed ∧ sent = own k log ∧
      filesReceived.toNat = log.length % 2 ^ 64
  | .ended (some summary) =>
    sent = own k summary.counted ∧ sent = own k summary.summed ∧
      summary.response.filesReceived.toNat = summary.counted.length % 2 ^ 64 ∧
      summary.response.bytesProcessed.toNat = total (summary.summed.map Prod.snd) % 2 ^ 64
  | .ended none => True
  | .receiving | .submitting _ | .loadingFiles => sent = counted ∧ sent = summed

structure ServerState.Sound (s : ServerState) : Prop where
  files : s.countAnalyzedFiles.filesReceived.toNat = s.counted.length % 2 ^ 64
  bytes : s.countAnalyzedFiles.bytesProcessed.toNat = total (s.summed.map Prod.snd) % 2 ^ 64
  fits : ∀ (k : Nat) (phase : Phase), s.streams[k]? = some phase →
    phase.Fits k (own k s.sent) (own k s.counted) (own k s.summed)
  absent : ∀ k, s.streams.length ≤ k →
    own k s.sent = [] ∧ own k s.counted = [] ∧ own k s.summed = []

/-- What a step does to the logs and to the stream that takes it. -/
inductive Moves (s : ServerState) : ServerState → Prop
  | connect : Moves s { s with streams := s.streams ++ [Phase.receiving] }
  | idle {k : Nat} {old phase : Phase} (hk : s.streams[k]? = some old)
      (hOld : old.Fits k (own k s.sent) (own k s.counted) (own k s.summed) →
        phase.Fits k (own k s.sent) (own k s.counted) (own k s.summed)) :
      Moves s (s.put k phase)
  | send {k : Nat} {request : FileAnalyzerRequest} (id : UUID)
      (hk : s.streams[k]? = some (.submitting request)) :
      Moves s { s.put k (.addingFile request.size) with
        eventChan := s.eventChan ++ [(k, toEvent request id)] }
  | addFile {k : Nat} {size : UInt64} (hk : s.streams[k]? = some (.addingFile size)) :
      Moves s { s.put k (.addingBytes size) with
        countAnalyzedFiles := { s.countAnalyzedFiles with
          filesReceived := s.countAnalyzedFiles.filesReceived + 1 }
        counted := s.counted ++ [(k, size)] }
  | addBytes {k : Nat} {size : UInt64} (hk : s.streams[k]? = some (.addingBytes size)) :
      Moves s { s.put k .receiving with
        countAnalyzedFiles := { s.countAnalyzedFiles with
          bytesProcessed := s.countAnalyzedFiles.bytesProcessed + size }
        summed := s.summed ++ [(k, size)] }

variable {s t : ServerState}

theorem receive_fits {k : Nat} {sent counted summed : List UInt64} (message : Received)
    (h : Phase.receiving.Fits k sent counted summed) :
    (receive message).Fits k sent counted summed := by
  cases message with
  | eof => exact h
  | failed => exact trivial
  | request r =>
    cases r with
    | none => exact h
    | some r =>
      rw [receive]
      split
      · exact h
      · exact h

theorem moves_of_step (hSound : s.Sound) {a : Action} (h : step s a = some t) : Moves s t := by
  cases a with
  | connect =>
    cases h
    exact .connect
  | recv k message =>
    simp only [step] at h
    split at h
    · rename_i hk
      cases h
      exact .idle hk (receive_fits message)
    · cases h
  | send k id =>
    simp only [step] at h
    split at h
    · rename_i hk
      cases h
      exact .send id hk
    · cases h
  | contextDone k =>
    simp only [step] at h
    split at h
    · rename_i hk
      cases h
      exact .idle hk fun _ => trivial
    · cases h
  | addFile k =>
    simp only [step] at h
    split at h
    · rename_i hk
      cases h
      exact .addFile hk
    · cases h
  | addBytes k =>
    simp only [step] at h
    split at h
    · rename_i hk
      cases h
      exact .addBytes hk
    · cases h
  | loadFiles k =>
    simp only [step] at h
    split at h
    · rename_i hk
      cases h
      refine .idle hk ?_
      rintro ⟨hCounted, hSummed⟩
      exact ⟨hCounted, hSummed, hCounted, hSound.files⟩
    · cases h
  | loadBytes k now =>
    simp only [step] at h
    split at h
    · rename_i hk
      cases h
      refine .idle hk ?_
      rintro ⟨hCounted, hSummed, hLog, hFiles⟩
      exact ⟨hLog, hSummed, hFiles, hSound.bytes⟩
    · cases h

/-- Stream `k` moves on to a phase that fits, and nothing is logged for another
stream. -/
theorem ServerState.Sound.fits_put (h : s.Sound) {k : Nat} {old phase : Phase}
    (hk : s.streams[k]? = some old) {sent counted summed : Ledger}
    (hSent : ∀ j, j ≠ k → own j sent = own j s.sent)
    (hCounted : ∀ j, j ≠ k → own j counted = own j s.counted)
    (hSummed : ∀ j, j ≠ k → own j summed = own j s.summed)
    (hFits : phase.Fits k (own k sent) (own k counted) (own k summed)) :
    ∀ (j : Nat) (p : Phase), (s.streams.set k phase)[j]? = some p →
      p.Fits j (own j sent) (own j counted) (own j summed) := by
  intro j p hj
  obtain ⟨hLength, _⟩ := List.getElem?_eq_some_iff.mp hk
  by_cases hjk : k = j
  · subst hjk
    rw [List.getElem?_set_self hLength] at hj
    cases hj
    exact hFits
  · rw [List.getElem?_set_ne hjk] at hj
    rw [hSent j (Ne.symm hjk), hCounted j (Ne.symm hjk), hSummed j (Ne.symm hjk)]
    exact h.fits j p hj

theorem ServerState.Sound.absent_put (h : s.Sound) {k : Nat} {old : Phase}
    (hk : s.streams[k]? = some old) (phase : Phase) {sent counted summed : Ledger}
    (hSent : ∀ j, j ≠ k → own j sent = own j s.sent)
    (hCounted : ∀ j, j ≠ k → own j counted = own j s.counted)
    (hSummed : ∀ j, j ≠ k → own j summed = own j s.summed) :
    ∀ j, (s.streams.set k phase).length ≤ j →
      own j sent = [] ∧ own j counted = [] ∧ own j summed = [] := by
  intro j hj
  obtain ⟨hLength, _⟩ := List.getElem?_eq_some_iff.mp hk
  rw [List.length_set] at hj
  have hjk : j ≠ k := by omega
  rw [hSent j hjk, hCounted j hjk, hSummed j hjk]
  exact h.absent j hj

theorem sent_concat (s : ServerState) (k : Nat) (e : FileAnalyse) :
    ((s.eventChan ++ [(k, e)]).map fun e => (e.1, e.2.size)) = s.sent ++ [(k, e.size)] := by
  rw [List.map_append]
  rfl

/-- A new stream has nothing in the logs. -/
theorem ServerState.Sound.connect (h : s.Sound) :
    ServerState.Sound { s with streams := s.streams ++ [Phase.receiving] } := by
  refine ⟨h.files, h.bytes, ?_, ?_⟩
  · intro k phase hk
    obtain ⟨_, hOld⟩ | ⟨rfl, rfl⟩ := Bag.getElem?_concat_cases hk
    · exact h.fits k phase hOld
    · obtain ⟨hSent, hCounted, hSummed⟩ := h.absent s.streams.length (Nat.le_refl _)
      exact ⟨hSent.trans hCounted.symm, hSent.trans hSummed.symm⟩
  · intro k hk
    rw [List.length_append, List.length_singleton] at hk
    exact h.absent k (by omega)

theorem Moves.sound (hMoves : Moves s t) (h : s.Sound) : t.Sound := by
  cases hMoves with
  | connect => exact h.connect
  | @idle k old phase hk hOld =>
    have hFits := hOld (h.fits k old hk)
    exact ⟨h.files, h.bytes, h.fits_put hk (fun _ _ => rfl) (fun _ _ => rfl) (fun _ _ => rfl) hFits,
      h.absent_put hk phase (fun _ _ => rfl) (fun _ _ => rfl) (fun _ _ => rfl)⟩
  | @send k request id hk =>
    have hSent : ∀ j, j ≠ k → own j (s.sent ++ [(k, request.size)]) = own j s.sent :=
      fun j hj => own_concat_of_ne hj _ _
    obtain ⟨hCounted, hSummed⟩ := h.fits k _ hk
    have hFits : (Phase.addingFile request.size).Fits k (own k (s.sent ++ [(k, request.size)]))
        (own k s.counted) (own k s.summed) := by
      rw [own_concat_self]
      exact ⟨congrArg (· ++ [request.size]) hCounted, congrArg (· ++ [request.size]) hSummed⟩
    have hLog := sent_concat s k (toEvent request id)
    refine ⟨h.files, h.bytes, ?_, ?_⟩
    · intro j p hj
      rw [ServerState.sent, hLog]
      exact h.fits_put hk hSent (fun _ _ => rfl) (fun _ _ => rfl) hFits j p hj
    · intro j hj
      rw [ServerState.sent, hLog]
      exact h.absent_put hk _ hSent (fun _ _ => rfl) (fun _ _ => rfl) j hj
  | @addFile k size hk =>
    have hCounted : ∀ j, j ≠ k → own j (s.counted ++ [(k, size)]) = own j s.counted :=
      fun j hj => own_concat_of_ne hj _ _
    obtain ⟨hFile, hSummed⟩ := h.fits k _ hk
    have hFits : (Phase.addingBytes size).Fits k (own k s.sent)
        (own k (s.counted ++ [(k, size)])) (own k s.summed) := by
      rw [own_concat_self]
      exact ⟨hFile, hSummed⟩
    refine ⟨?_, h.bytes, h.fits_put hk (fun _ _ => rfl) hCounted (fun _ _ => rfl) hFits,
      h.absent_put hk _ (fun _ _ => rfl) hCounted (fun _ _ => rfl)⟩
    have hFiles := h.files
    rw [List.length_append, List.length_singleton]
    simp only [UInt64.toNat_add, UInt64.reduceToNat]
    omega
  | @addBytes k size hk =>
    have hSummed : ∀ j, j ≠ k → own j (s.summed ++ [(k, size)]) = own j s.summed :=
      fun j hj => own_concat_of_ne hj _ _
    obtain ⟨hCounted, hBytes⟩ := h.fits k _ hk
    have hFits : Phase.receiving.Fits k (own k s.sent) (own k s.counted)
        (own k (s.summed ++ [(k, size)])) := by
      rw [own_concat_self]
      exact ⟨hCounted, hBytes⟩
    refine ⟨h.files, ?_, h.fits_put hk (fun _ _ => rfl) (fun _ _ => rfl) hSummed hFits,
      h.absent_put hk _ (fun _ _ => rfl) (fun _ _ => rfl) hSummed⟩
    have hTotal := h.bytes
    rw [List.map_append, total_append]
    simp only [UInt64.toNat_add, List.map_cons, List.map_nil, total, List.foldr_cons,
      List.foldr_nil, Nat.add_zero] at hTotal ⊢
    omega

theorem sound_of_reachable (h : machine.Reachable s) : s.Sound := by
  refine Machine.Reachable.invariant (I := ServerState.Sound) ?_ ?_ h
  · refine ⟨rfl, rfl, ?_, fun _ _ => ⟨rfl, rfl, rfl⟩⟩
    exact fun k phase hk => absurd (List.mem_of_getElem? hk) List.not_mem_nil
  · exact fun s a t hs hStep => (moves_of_step hs hStep).sound hs

/-- The summary of a stream counts its own requests exactly when, up to the
width of the counters, nothing of another stream had been counted. -/
theorem summary_exact_iff (h : machine.Reachable s) {k : Nat} {summary : Summary}
    (hEnded : s.streams[k]? = some (.ended (some summary))) :
    (summary.response.filesReceived.toNat = (own k s.sent).length ↔
      (others k summary.counted).length % 2 ^ 64 = 0 ∧ (own k s.sent).length < 2 ^ 64) ∧
    (summary.response.bytesProcessed.toNat = total (own k s.sent) % 2 ^ 64 ↔
      total (others k summary.summed) % 2 ^ 64 = 0) := by
  obtain ⟨hCounted, hSummed, hFiles, hBytes⟩ := (sound_of_reachable h).fits k _ hEnded
  have hLength := length_split k summary.counted
  have hTotal := total_split k summary.summed
  rw [← hCounted] at hLength
  rw [← hSummed] at hTotal
  rw [hFiles, hBytes, hLength, hTotal]
  constructor
  · omega
  · omega

def sampleRequest (size : UInt64) : FileAnalyzerRequestPb where
  path := "/a"
  driveId := "d"
  size := size
  attributes := 0
  mimeType := "text/plain"
  magicBytes := []
  scannedAt := some 5
  sourceType := 1

/-- A stream that sends one request and ends. -/
def session (k : Nat) (size : UInt64) : List Action :=
  [.connect, .recv k (.request (some (sampleRequest size))), .send k UUID.nil, .addFile k,
    .addBytes k, .recv k .eof, .loadFiles k, .loadBytes k 9]

def firstSummary : Summary where
  response := { filesReceived := 1, bytesProcessed := 5, endedAt := 9 }
  counted := [(0, 5)]
  summed := [(0, 5)]

theorem summary_exact_iff_first :
    (machine.after (session 0 5)).streams[0]? = some (.ended (some firstSummary)) ∧
    firstSummary.response.filesReceived.toNat =
      (own 0 (machine.after (session 0 5)).sent).length ∧
    firstSummary.response.bytesProcessed.toNat =
      total (own 0 (machine.after (session 0 5)).sent) % 2 ^ 64 := by
  have hEnded : (machine.after (session 0 5)).streams[0]? =
      some (.ended (some firstSummary)) := by decide +kernel
  obtain ⟨hFiles, hBytes⟩ := summary_exact_iff (machine.reachable_after (session 0 5)) hEnded
  exact ⟨hEnded, hFiles.mpr (by decide +kernel), hBytes.mpr (by decide +kernel)⟩

def secondSummary : Summary where
  response := { filesReceived := 2, bytesProcessed := 12, endedAt := 9 }
  counted := [(0, 5), (1, 7)]
  summed := [(0, 5), (1, 7)]

/-- The second stream put one file of seven bytes on the channel. -/
theorem summary_of_second_stream :
    (machine.after (session 0 5 ++ session 1 7)).streams[1]? =
      some (.ended (some secondSummary)) ∧
    own 1 (machine.after (session 0 5 ++ session 1 7)).sent = [7] ∧
    secondSummary.response.filesReceived.toNat ≠
      (own 1 (machine.after (session 0 5 ++ session 1 7)).sent).length ∧
    secondSummary.response.bytesProcessed.toNat ≠
      total (own 1 (machine.after (session 0 5 ++ session 1 7)).sent) % 2 ^ 64 := by
  decide +kernel

end ChatLab.Grpc.FileAnalyzer
