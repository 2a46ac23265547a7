import ChatLab.Foundation.Chunks
import ChatLab.Specialist

/-!
# The client of a specialist

`Analyze` opens a stream, sends the metadata and then the data in chunks, and
asks for the response. Every call on the stream is recorded. A stream answers a
send from all it was sent so far, so that any state it keeps and any failure on
the way is one of the streams here. Lengths are far below the range of an int.
-/

namespace ChatLab.Grpc.SpecialistClient

open Foundation

/-! ## Messages -/

/-- The type is any value of the string type `MIME`, the empty one included. -/
structure Metadata where
  messageId : String
  fileName : String
  effectiveMimeType : String
deriving DecidableEq

structure Request where
  metadata : Option Metadata
  chunk : List UInt8
deriving DecidableEq

inductive SpecialistRequestPb
  | metadata (messageId fileName mimeType : String)
  | chunk (data : List UInt8)
deriving DecidableEq

structure PagePb where
  number : Int32
  content : String
deriving DecidableEq

inductive SpecialistResponsePb
  | documentData (title author : String) (pageCount : Int32) (language : String)
      (pages : List PagePb)
  | score (score : Float64) (label : String)
  | audio (transcription : String) (durationSec : Float64) (language : String)
  | unset
deriving DecidableEq

def fromPbPage (pages : List PagePb) : List Page :=
  pages.map fun item => { number := item.number, content := item.content }

def fromPbSpecialistResponse : SpecialistResponsePb → Response
  | .documentData title author pageCount language pages =>
    { oneOf := some (.document { title := title, author := author, pageCount := pageCount,
                                 language := language, pages := fromPbPage pages }) }
  | .score score label => { oneOf := some (.score { score := score, label := label }) }
  | .audio transcription durationSec language =>
    { oneOf := some (.audio { transcription := transcription, duration := durationSec,
                              language := language }) }
  | .unset => { oneOf := none }

/-! ## The stream -/

/-- Errors are kept as their text. -/
structure AnalyzeStream where
  send : List SpecialistRequestPb → Option String
  closeAndRecv : List SpecialistRequestPb → Except String SpecialistResponsePb

inductive StreamCall
  | send (request : SpecialistRequestPb)
  | closeAndRecv
deriving DecidableEq

def chunkSize : Nat := 32 * 1024

def metadataRequest (m : Metadata) : SpecialistRequestPb :=
  .metadata m.messageId m.fileName m.effectiveMimeType

def sendMetadata (stream : AnalyzeStream) : Option Metadata →
    Option String × List SpecialistRequestPb
  | none => (none, [])
  | some m => (stream.send [metadataRequest m], [metadataRequest m])

/-- The loop over the data from index `i` on, after the requests in `sent`. -/
def sendChunks (stream : AnalyzeStream) (data : List UInt8) (i : Nat)
    (sent : List SpecialistRequestPb) : Option String × List SpecialistRequestPb :=
  if i < data.length then
    let stop := if i + chunkSize > data.length then data.length else i + chunkSize
    let sent := sent ++ [.chunk (data.extract i stop)]
    match stream.send sent with
    | some err => (some err, sent)
    | none => sendChunks stream data (i + chunkSize) sent
  else (none, sent)
termination_by data.length - i
decreasing_by
  have hStep : 0 < chunkSize := by decide
  omega

/-- The argument is the answer of `AnalyzeStream`; the second component holds
the calls that were made on the stream. -/
def analyze (opened : Except String AnalyzeStream) (request : Request) :
    Except String Response × List StreamCall :=
  match opened with
  | .error err => (.error err, [])
  | .ok stream =>
    match sendMetadata stream request.metadata with
    | (some err, sent) => (.error err, sent.map .send)
    | (none, sent) =>
      match sendChunks stream request.chunk 0 sent with
      | (some err, sent) => (.error err, sent.map .send)
      | (none, sent) =>
        ((stream.closeAndRecv sent).map fromPbSpecialistResponse,
          sent.map .send ++ [.closeAndRecv])

/-! ## The chunks of the loop -/

section Loop

variable {stream : AnalyzeStream}

/-- One round takes a chunk off what is left. -/
theorem sendChunks_of_lt {data : List UInt8} {i : Nat} (h : i < data.length)
    (sent : List SpecialistRequestPb) :
    sendChunks stream data i sent =
      match stream.send (sent ++ [.chunk ((data.drop i).take chunkSize)]) with
      | some err => (some err, sent ++ [.chunk ((data.drop i).take chunkSize)])
      | none => sendChunks stream data (i + chunkSize)
          (sent ++ [.chunk ((data.drop i).take chunkSize)]) := by
  have hSlice : data.extract i (if i + chunkSize > data.length then data.length
      else i + chunkSize) = (data.drop i).take chunkSize := by
    rw [List.extract_eq_take_drop]
    split
    · rw [List.take_of_length_le (by rw [List.length_drop]),
        List.take_of_length_le (by rw [List.length_drop]; omega)]
    · rw [Nat.add_sub_cancel_left]
  rw [sendChunks, if_pos h]
  simp only [hSlice]

theorem sendChunks_of_ge {data : List UInt8} {i : Nat} (h : data.length ≤ i)
    (sent : List SpecialistRequestPb) : sendChunks stream data i sent = (none, sent) := by
  rw [sendChunks, if_neg (Nat.not_lt.mpr h)]

/-- The loop sends the chunks of what is left, in order. -/
theorem exists_sendChunks (data : List UInt8) (i : Nat) :
    ∃ chunks, IsChunking chunkSize (data.drop i) chunks ∧ ∀ (stream : AnalyzeStream) sent,
      sendChunks stream data i sent = sendInTurn stream.send sent (chunks.map .chunk) := by
  induction hLeft : data.length - i using Nat.strong_induction_on generalizing i with
  | _ left ih =>
    have hStep : 0 < chunkSize := by decide
    by_cases hMore : i < data.length
    · obtain ⟨chunks, hChunks, hLoop⟩ := ih _ (by omega) (i + chunkSize) rfl
      rw [← List.drop_drop] at hChunks
      have hNonempty : data.drop i ≠ [] := by
        rw [Ne, List.drop_eq_nil_iff]
        omega
      refine ⟨_, hChunks.cons hStep hNonempty, ?_⟩
      intro stream sent
      rw [sendChunks_of_lt hMore, List.map_cons, sendInTurn]
      cases stream.send (sent ++ [.chunk ((data.drop i).take chunkSize)]) with
      | some err => rfl
      | none => exact hLoop stream _
    · have hEnd := Nat.le_of_not_lt hMore
      rw [List.drop_of_length_le hEnd]
      exact ⟨[], .nil, fun stream sent => sendChunks_of_ge hEnd sent⟩

end Loop

/-! ## A whole call -/

def plannedRequests (metadata : Option Metadata) (chunks : List (List UInt8)) :
    List SpecialistRequestPb :=
  (metadata.map metadataRequest).toList ++ chunks.map .chunk

/-- The end of a call, from what the sends came to. -/
def finish (stream : AnalyzeStream) :
    Option String × List SpecialistRequestPb → Except String Response × List StreamCall
  | (some err, sent) => (.error err, sent.map .send)
  | (none, sent) =>
    ((stream.closeAndRecv sent).map fromPbSpecialistResponse, sent.map .send ++ [.closeAndRecv])

theorem sendMetadata_eq (stream : AnalyzeStream) (metadata : Option Metadata) :
    sendMetadata stream metadata =
      sendInTurn stream.send [] (metadata.map metadataRequest).toList := by
  cases metadata with
  | none => rfl
  | some m =>
    simp only [sendMetadata, Option.map_some, Option.toList_some, sendInTurn, List.nil_append]
    cases stream.send [metadataRequest m] <;> rfl

theorem exists_analyze (request : Request) :
    ∃ chunks, IsChunking chunkSize request.chunk chunks ∧ ∀ stream : AnalyzeStream,
      analyze (.ok stream) request =
        finish stream (sendInTurn stream.send [] (plannedRequests request.metadata chunks)) := by
  obtain ⟨chunks, hChunks, hLoop⟩ := exists_sendChunks request.chunk 0
  rw [List.drop_zero] at hChunks
  refine ⟨chunks, hChunks, ?_⟩
  intro stream
  rw [plannedRequests, sendInTurn_append, ← sendMetadata_eq]
  simp only [analyze, hLoop]
  cases sendMetadata stream request.metadata with
  | mk failed sent =>
    cases failed with
    | some err => rfl
    | none =>
      cases hSent : sendInTurn stream.send sent (chunks.map .chunk) with
      | mk failed sent =>
        cases failed with
        | some err => simp only [hSent, finish]
        | none => simp only [hSent, finish]

/-- The data goes out once and in order, in non-empty chunks of which only the
last may be short, after the metadata if there is any. When all of this is
taken the response is asked for; when a send fails, it was the last call. -/
theorem analyze_streams (request : Request) :
    ∃ chunks, IsChunking chunkSize request.chunk chunks ∧ ∀ stream : AnalyzeStream,
      let planned := plannedRequests request.metadata chunks
      (Takes stream.send planned 0 planned.length →
        analyze (.ok stream) request =
          ((stream.closeAndRecv planned).map fromPbSpecialistResponse,
            planned.map .send ++ [.closeAndRecv])) ∧
      ∀ k err, 0 < k → k ≤ planned.length → Takes stream.send planned 0 (k - 1) →
        stream.send (planned.take k) = some err →
        analyze (.ok stream) request = (.error err, (planned.take k).map .send) := by
  obtain ⟨chunks, hChunks, hAnalyze⟩ := exists_analyze request
  refine ⟨chunks, hChunks, ?_⟩
  intro stream planned
  rw [hAnalyze]
  constructor
  · intro hTaken
    rw [sendInTurn_taken [] planned hTaken]
    rfl
  · intro k err hLow hHigh hTaken hErr
    rw [sendInTurn_refused [] planned hLow hHigh hTaken hErr]
    rfl

end ChatLab.Grpc.SpecialistClient
