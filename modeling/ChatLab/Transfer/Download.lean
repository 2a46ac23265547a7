import ChatLab.Foundation.Machine
import ChatLab.Transfer.Accumulator

/-!
# Downloads over one shared response channel

The master handles its requests one after the other, each on a stream of its
own, and leaves a stream at its end or at the first error without closing it.
On the scanner's side every stream has a receiver and a sender; all workers
push into one channel and all senders take from it. Streams are reliable and
keep their order. The two channels of the scanner are unbounded here, which
adds schedules and removes none.

A request carries its stream's number as a ghost; responses carry nothing, as
in the source.
-/

namespace ChatLab.Transfer

open Foundation Workers

inductive StreamEnd
  | eof | failed
deriving DecidableEq, Repr

/-- One call of `Download`, seen from both sides. `todo` are the responses that
the worker with this stream's request has still to push. -/
structure Stream where
  request : FileDownloaderRequest
  incoming : Option PbRequest
  todo : List FileDownloaderResponse
  toMaster : List (Option Control)
  senderRunning : Bool
  closed : Option StreamEnd

structure Scan where
  stream : Nat
  request : FileDownloaderRequest
  bytes : List UInt8

structure Published where
  stream : Nat
  location : TmpFileLocation
  bytes : List UInt8

structure DownloadState where
  accumulator : FileAccumulator
  disk : Disk
  -- the stream that `handleDownload` is reading
  master : Option Nat
  streams : List Stream
  requestChan : List (Nat × FileDownloaderRequest)
  responseChan : List FileDownloaderResponse
  scans : List Scan
  published : List Published

inductive DownloadAction
  | openStream (req : FileDownloaderRequest)
  | receive (k : Nat)
  | pick (view : FileView)
  | push (k : Nat)
  | pop (k : Nat)
  | cancel (k : Nat)
  | close (k : Nat)
  | recv (io : IoOutcome)

section Steps

variable (detect : List UInt8 → String) (sha256 : List UInt8 → String) (maxFileSizeMb : Int)
  (join : String → String → String)

def openStream (s : DownloadState) (req : FileDownloaderRequest) : Option DownloadState :=
  match s.master with
  | some _ => none
  | none =>
    let stream : Stream :=
      { request := req, incoming := some { fileId := req.fileId, path := req.path }, todo := [],
        toMaster := [], senderRunning := true, closed := none }
    some { s with streams := s.streams ++ [stream], master := some s.streams.length }

def receive (s : DownloadState) (k : Nat) (st : Stream) : Option DownloadState :=
  match st.incoming with
  | none => none
  | some req =>
    let request := fromPbRequest req
    if validRequest request then
      some { s with
        streams := s.streams.set k { st with incoming := none }
        requestChan := s.requestChan ++ [(k, request)] }
    else
      some { s with
        streams := s.streams.set k { st with
          incoming := none, closed := st.closed.or (some .failed) } }

def pick (s : DownloadState) (view : FileView) : Option DownloadState :=
  match s.requestChan with
  | [] => none
  | (k, request) :: rest =>
    match s.streams[k]? with
    | none => none
    | some st =>
      let (responses, bytes) := process detect sha256 maxFileSizeMb request view
      some { s with
        requestChan := rest
        streams := s.streams.set k { st with todo := responses }
        scans := s.scans ++ [{ stream := k, request := request, bytes := bytes }] }

def push (s : DownloadState) (k : Nat) (st : Stream) : Option DownloadState :=
  match st.todo with
  | [] => none
  | resp :: rest =>
    some { s with
      streams := s.streams.set k { st with todo := rest }
      responseChan := s.responseChan ++ [resp] }

/-- The sender takes the next response, whoever pushed it. On a stream whose
call has returned the send fails, and the response is lost. -/
def pop (s : DownloadState) (k : Nat) (st : Stream) : Option DownloadState :=
  match st.senderRunning, s.responseChan with
  | true, resp :: rest =>
    if st.closed.isSome then
      some { s with
        streams := s.streams.set k { st with senderRunning := false }
        responseChan := rest }
    else
      some { s with
        streams := s.streams.set k { st with
          toMaster := st.toMaster ++ [toPbResponse resp], senderRunning := !resp.isLast }
        responseChan := rest }
  | _, _ => none

def cancel (s : DownloadState) (k : Nat) (st : Stream) : Option DownloadState :=
  if st.senderRunning && st.closed.isSome then
    some { s with streams := s.streams.set k { st with senderRunning := false } }
  else none

def close (s : DownloadState) (k : Nat) (st : Stream) : Option DownloadState :=
  if !st.senderRunning && st.closed.isNone then
    some { s with streams := s.streams.set k { st with closed := some .eof } }
  else none

def recv (s : DownloadState) (k : Nat) (st : Stream) (io : IoOutcome) : Option DownloadState :=
  match st.toMaster with
  | [] => if st.closed.isSome then some { s with master := none } else none
  | control :: rest =>
    let streams := s.streams.set k { st with toMaster := rest }
    match processResponse join sha256 s.accumulator s.disk st.request.driveId st.request.fileId
        (fromPbResponse control) io with
    | (accumulator, disk, .error _) =>
      some { s with accumulator := accumulator, disk := disk, streams := streams, master := none }
    | (accumulator, disk, .ok none) =>
      some { s with accumulator := accumulator, disk := disk, streams := streams }
    | (accumulator, disk, .ok (some location)) =>
      let entry : Published :=
        { stream := k, location := location,
          bytes := (disk.get? location.tmpFilePath).getD [] }
      some { s with
        accumulator := accumulator, disk := disk, streams := streams
        published := s.published ++ [entry] }

def downloadStep (s : DownloadState) : DownloadAction → Option DownloadState
  | .openStream req => openStream s req
  | .receive k => s.streams[k]?.bind (receive s k)
  | .pick view => pick detect sha256 maxFileSizeMb s view
  | .push k => s.streams[k]?.bind (push s k)
  | .pop k => s.streams[k]?.bind (pop s k)
  | .cancel k => s.streams[k]?.bind (cancel s k)
  | .close k => s.streams[k]?.bind (close s k)
  | .recv io => s.master.bind fun k => s.streams[k]?.bind fun st => recv sha256 join s k st io

def downloadMachine (tempDir : String) : Machine DownloadState DownloadAction where
  start :=
    { accumulator := { tempDir := tempDir, buffers := .empty, hash := .empty }
      disk := OrderedMap.empty, master := none, streams := [], requestChan := []
      responseChan := [], scans := [], published := [] }
  step := downloadStep detect sha256 maxFileSizeMb join

end Steps

/-- A published file has the bytes that the scanner read for a request with
the published identifier. -/
def DownloadState.Faithful (s : DownloadState) : Prop :=
  ∀ p ∈ s.published, ∃ scan ∈ s.scans,
    scan.request.fileId = p.location.fileId ∧ scan.bytes = p.bytes

/-- No sender of an earlier stream runs when the master opens a stream. -/
def SendersDone (s : DownloadState) : DownloadAction → Prop
  | .openStream _ => ∀ st ∈ s.streams, st.senderRunning = false
  | _ => True

end ChatLab.Transfer
