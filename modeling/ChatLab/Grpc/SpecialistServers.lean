import ChatLab.Grpc.AuthServer
import ChatLab.Grpc.SpecialistClient

/-!
# The specialists

The Python servers behind `AnalyzeStream`. The PDF and the audio specialist
join the chunks of a stream and analyse the result when the stream ends; the
image specialist has no such method, so that the generated stub answers.

The libraries that read documents and recordings are parameters, with their
exceptions as texts. An answer reaches the client as a response or as the text
of its status. The transport keeps the order of a stream and may refuse a
send at any time.
-/

namespace ChatLab.Grpc.SpecialistServers

open Foundation SpecialistClient

/-! ## The servers -/

/-- What the loop over the requests has gathered. -/
structure Received where
  messageId : String
  fileName : String
  data : List UInt8
deriving DecidableEq

def Received.take (r : Received) : SpecialistRequestPb → Received
  | .metadata messageId fileName _ => { r with messageId := messageId, fileName := fileName }
  | .chunk data => { r with data := r.data ++ data }

def noneReceived : Received where
  messageId := "N/A"
  fileName := "unknown"
  data := []

def receivedFrom (requests : List SpecialistRequestPb) : Received :=
  requests.foldl Received.take noneReceived

/-- A document as `fitz` opens it. Its number of pages is a C int. -/
structure PdfDocument where
  title : Option String
  author : Option String
  pages : List (Except String String)
  pages_lt : pages.length < 2 ^ 31

/-- `value or default` on texts of a dictionary. -/
def orElse (value : Option String) (other : String) : String :=
  match value with
  | none => other
  | some text => if text = "" then other else text

/-- The loop over the first pages; the page at position `i` has the number `i + 1`. -/
def extractPages (i : Nat) : List (Except String String) → Except String (List PagePb)
  | [] => .ok []
  | .error e :: _ => .error e
  | .ok content :: rest =>
    match extractPages (i + 1) rest with
    | .error e => .error e
    | .ok pages => .ok ({ number := Int32.ofNat (i + 1), content := content } :: pages)

def maxPages : Nat := 5

def documentResponse (doc : PdfDocument) (fileName : String) (pages : List PagePb) :
    SpecialistResponsePb :=
  .documentData (orElse doc.title fileName) (orElse doc.author "Unknown")
    (Int32.ofNat doc.pages.length) "fr" pages

/-- `str.strip`. -/
def strip (isSpace : Char → Bool) (text : String) : String :=
  String.ofList ((text.toList.dropWhile isSpace).reverse.dropWhile isSpace).reverse

/-- What the specialists ask of other libraries. -/
structure Libraries where
  fitzOpen : List UInt8 → Except String PdfDocument
  transcribe : List UInt8 → Except String (List String)
  isSpace : Char → Bool

inductive Specialist
  | pdf
  | audio
  | image
deriving DecidableEq, Repr

section Servers

variable (l : Libraries)

/-- `MonitorService.AnalyzeStream` after its loop: every exception ends in `abort`. -/
def inspectPdf (fileName : String) (data : List UInt8) : Except Status SpecialistResponsePb :=
  match l.fitzOpen data with
  | .error e => .error ⟨Code.internal, e⟩
  | .ok doc =>
    match extractPages 0 (doc.pages.take maxPages) with
    | .error e => .error ⟨Code.internal, e⟩
    | .ok pages => .ok (documentResponse doc fileName pages)

/-- `AudioSpecialist.AnalyzeStream` after its loop: the server turns an
exception of the method into a status. -/
def inspectAudio (data : List UInt8) : Except Status SpecialistResponsePb :=
  match l.transcribe data with
  | .error e => .error ⟨Code.unknown, "Exception calling application: " ++ e⟩
  | .ok segments => .ok (.audio (strip l.isSpace (" ".intercalate segments)) 0 "")

/-- `ImageSpecialist` defines a method `Analyze`, which the service does not
have; the generated method answers in its place. -/
def inspectImage : Except Status SpecialistResponsePb :=
  .error ⟨Code.unimplemented, "Method not implemented!"⟩

def Specialist.inspect (fileName : String) (data : List UInt8) :
    Specialist → Except Status SpecialistResponsePb
  | .pdf => inspectPdf l fileName data
  | .audio => inspectAudio l data
  | .image => inspectImage

def Specialist.analyzeStream (specialist : Specialist) (requests : List SpecialistRequestPb) :
    Except Status SpecialistResponsePb :=
  let received := receivedFrom requests
  specialist.inspect l received.fileName received.data

end Servers

/-! ## Client and server together -/

/-- The names of the codes that a specialist answers with. -/
def codeText (code : Code) : String :=
  if code = Code.internal then "Internal"
  else if code = Code.unimplemented then "Unimplemented"
  else "Unknown"

/-- A response, or the text of the status that the client is given. -/
def clientAnswer : Except Status SpecialistResponsePb → Except String SpecialistResponsePb
  | .ok response => .ok response
  | .error status =>
    .error ("rpc error: code = " ++ codeText status.code ++ " desc = " ++ status.message)

/-- The stream ends at this server: it hands on no other response. -/
def Relays (stream : AnalyzeStream)
    (serve : List SpecialistRequestPb → Except Status SpecialistResponsePb) : Prop :=
  ∀ sent response, stream.closeAndRecv sent = .ok response → serve sent = .ok response

/-- Nothing fails on the way. -/
structure Reliable (stream : AnalyzeStream)
    (serve : List SpecialistRequestPb → Except Status SpecialistResponsePb) : Prop where
  sends : ∀ sent, stream.send sent = none
  answers : ∀ sent, stream.closeAndRecv sent = clientAnswer (serve sent)

theorem foldl_take_chunks (r : Received) (chunks : List (List UInt8)) :
    (chunks.map .chunk).foldl Received.take r = { r with data := r.data ++ chunks.flatten } := by
  induction chunks generalizing r with
  | nil => simp
  | cons data chunks ih =>
    rw [List.map_cons, List.foldl_cons, ih, List.flatten_cons, Received.take, List.append_assoc]

/-- The server has the name and the data as the client was given them. -/
theorem receivedFrom_planned {size : Nat} {data : List UInt8} {chunks : List (List UInt8)}
    (h : IsChunking size data chunks) (m : Metadata) :
    receivedFrom (plannedRequests (some m) chunks) =
      { messageId := m.messageId, fileName := m.fileName, data := data } := by
  rw [receivedFrom, plannedRequests, Option.map_some, Option.toList_some, List.singleton_append,
    List.foldl_cons, foldl_take_chunks, h.flatten]
  rfl

section Calls

variable {l : Libraries} {stream : AnalyzeStream} {specialist : Specialist}

theorem analyzeStream_planned {size : Nat} {data : List UInt8} {chunks : List (List UInt8)}
    (h : IsChunking size data chunks) (m : Metadata) :
    specialist.analyzeStream l (plannedRequests (some m) chunks) =
      specialist.inspect l m.fileName data := by
  simp only [Specialist.analyzeStream, receivedFrom_planned h]

/-- A result comes from the whole of the data, whatever fails on the way. -/
theorem inspect_of_analyze (hRelays : Relays stream (specialist.analyzeStream l))
    {m : Metadata} {data : List UInt8} {resp : Response}
    (h : (SpecialistClient.analyze (.ok stream) { metadata := some m, chunk := data }).1 =
      .ok resp) :
    ∃ response, specialist.inspect l m.fileName data = .ok response ∧
      resp = fromPbSpecialistResponse response := by
  obtain ⟨chunks, hChunks, hAnalyze⟩ := exists_analyze { metadata := some m, chunk := data }
  rw [hAnalyze] at h
  cases hSent : sendInTurn stream.send [] (plannedRequests (some m) chunks) with
  | mk failed sent =>
    cases failed with
    | some err =>
      rw [hSent] at h
      cases h
    | none =>
      obtain rfl := sendInTurn_eq_none hSent
      rw [hSent, finish] at h
      cases hAnswer : stream.closeAndRecv ([] ++ plannedRequests (some m) chunks) with
      | error e =>
        rw [hAnswer] at h
        cases h
      | ok response =>
        rw [hAnswer] at h
        refine ⟨response, ?_, (Except.ok.inj h).symm⟩
        rw [← hRelays _ _ hAnswer, List.nil_append, analyzeStream_planned hChunks]

theorem analyze_of_reliable (hReliable : Reliable stream (specialist.analyzeStream l))
    (m : Metadata) (data : List UInt8) :
    (SpecialistClient.analyze (.ok stream) { metadata := some m, chunk := data }).1 =
      (clientAnswer (specialist.inspect l m.fileName data)).map fromPbSpecialistResponse := by
  obtain ⟨chunks, hChunks, hAnalyze⟩ := exists_analyze { metadata := some m, chunk := data }
  rw [hAnalyze, sendInTurn_taken [] _ fun j _ _ => hReliable.sends _, finish, hReliable.answers,
    List.nil_append, analyzeStream_planned hChunks]

end Calls

end ChatLab.Grpc.SpecialistServers
