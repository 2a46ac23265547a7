import ChatLab.Grpc.FileAnalyzerServer
import ChatLab.Workers.FileScanner
import ChatLab.Workers.Supervisor

/-!
# The file sender

`FileSenderWorker.Run` opens a stream to the master, and its goroutine forwards
what the scan workers put on `fileChan`. The supervisor calls `Run` again after
an error. The stream is opened with a service configuration that retries calls
which break with `UNAVAILABLE`: the library keeps what was sent in a call and
writes it again on a new stream, until the call is committed or has used up its
attempts. The server cannot tell such a stream from the stream of another call.

A message that was sent is on its way until the server receives it; a stream may
break at any time, noticed by either side when it likes. A stream of a context
that is done may answer with an error, but a response that the server gave may
still be delivered. `main` waits for the signal context and closes `fileChan`
then; the supervisor's context is a child of that one and may be cancelled
later. The ticker of the goroutine only logs.
-/

namespace ChatLab.Workers.FileSender

open Foundation

open Grpc.FileAnalyzer (FileAnalyzerRequestPb Received Phase)

/-! ## Requests -/

/-- The number of the enum. -/
def toPbSourceType : SourceType → Int32
  | .unspecified => 0
  | .localFixed => 1
  | .removable => 2
  | .network => 3

def toPbFileAnalyzerRequest (req : FileAnalyzerRequest) : FileAnalyzerRequestPb where
  path := req.path
  driveId := req.driveId
  size := req.size
  attributes := req.attributes
  mimeType := req.mimeType
  magicBytes := req.magicBytes
  scannedAt := some req.scannedAt
  sourceType := toPbSourceType req.sourceType

def sourceAtMaster : SourceType → Services.SourceType
  | .unspecified => .unspecified
  | .localFixed => .localFixed
  | .removable => .removable
  | .network => .network

/-- The request as the master's process holds it. -/
def atMaster (req : FileAnalyzerRequest) : Services.FileAnalyzerRequest where
  path := req.path
  driveId := req.driveId
  size := req.size
  attributes := req.attributes
  mimeType := req.mimeType
  magicBytes := req.magicBytes
  scannedAt := req.scannedAt
  sourceType := sourceAtMaster req.sourceType

theorem toSourceType_toPbSourceType (source : SourceType) :
    Grpc.FileAnalyzer.toSourceType (toPbSourceType source) = sourceAtMaster source := by
  cases source <;> decide

theorem fromPb_toPbFileAnalyzerRequest (req : FileAnalyzerRequest) :
    Grpc.FileAnalyzer.fromPbFileAnalyzerRequest (toPbFileAnalyzerRequest req) = atMaster req := by
  rw [atMaster, ← toSourceType_toPbSourceType]
  rfl

/-! ## One call of `Run` -/

/-- What the sending goroutine puts on `sendErrChan` apart from nil. -/
inductive SendError
  | canceled
  | send
deriving DecidableEq

inductive RunError
  | unableToOpen
  | canceled
  | send
  | receivingFinalResponse
deriving DecidableEq

def SendError.run : SendError → RunError
  | .canceled => .canceled
  | .send => .send

/-- What `CloseAndRecv` returns. -/
inductive Answer
  | response
  | eof
  | failed
deriving DecidableEq

/-- The error of `Run`, none for nil. -/
def runResult (sendErr : Option SendError) (answer : Answer) : Option RunError :=
  if answer ≠ .response then
    if sendErr = some .send then sendErr.map SendError.run
    else if answer = .eof ∨ sendErr = some .canceled then sendErr.map SendError.run
    else some .receivingFinalResponse
  else sendErr.map SendError.run

theorem runResult_eq_none {sendErr : Option SendError} {answer : Answer}
    (h : runResult sendErr answer = none) : sendErr = none := by
  cases sendErr with
  | none => rfl
  | some e =>
    cases e with
    | canceled => cases answer <;> cases h
    | send => cases answer <;> cases h

def maxInFlight : Nat := 100

/-- The number is that of the call. -/
inductive RunPoint
  | opening
  | selecting (c : Nat)
  -- the inner `select`
  | acquiring (c : Nat) (req : FileAnalyzerRequest)
  | sending (c : Nat) (req : FileAnalyzerRequest)
  -- the goroutine has returned
  | closing (c : Nat) (sendErr : Option SendError)
deriving DecidableEq

/-! ## Calls and streams -/

/-- A call as the library of the client keeps it. -/
structure Call where
  sent : List FileAnalyzerRequestPb
  closed : Bool
  committed : Bool
  attempts : Nat
  -- the position of its last stream
  stream : Nat
deriving DecidableEq

/-- One stream of a call; `received` is a ghost. -/
structure Attempt where
  call : Nat
  received : List FileAnalyzerRequestPb
  transit : List FileAnalyzerRequestPb
  closed : Bool
  broken : Bool
deriving DecidableEq

def Attempt.written (a : Attempt) : List FileAnalyzerRequestPb := a.received ++ a.transit

/-- The stream after the server's `Recv` returned this. -/
def Attempt.recv (a : Attempt) : Received → Option Attempt
  | .request (some r) =>
    match a.transit with
    | [] => none
    | first :: rest =>
      if first = r then some { a with received := a.received ++ [r], transit := rest } else none
  | .request none => none
  | .eof => if a.closed = true ∧ a.transit = [] then some a else none
  | .failed => if a.broken then some a else none

/-- What became of a request that was taken from `fileChan`. -/
inductive Fate
  | sent (c : Nat)
  | dropped (c : Nat)
deriving DecidableEq

def Fate.call : Fate → Nat
  | sent c => c
  | dropped c => c

structure State where
  -- the signal context is done, and the supervisor's
  signalled : Bool
  cancelled : Bool
  fileChan : List FileAnalyzerRequest
  fileChanClosed : Bool
  goroutine : Supervisor.Point
  -- none outside of `Run`
  run : Option RunPoint
  inFlight : Nat
  masterBytes : UInt64
  calls : List Call
  attempts : List Attempt
  server : Grpc.FileAnalyzer.ServerState
  -- ghosts
  produced : List FileAnalyzerRequest
  taken : List (FileAnalyzerRequest × Fate)
  results : List (Option RunError)
deriving DecidableEq

inductive Action
  -- a scan worker
  | produce (req : FileAnalyzerRequest)
  | signal
  | closeFileChan
  | cancel
  | supervise (m : Supervisor.Move)
  | opened (ok : Bool)
  | ctxDone
  | receive
  | acquire
  | send (ok : Bool)
  | closeAndRecv (answer : Answer)
  | commit (c : Nat)
  | retry
  | disconnect (k : Nat)
  | serve (a : Grpc.FileAnalyzer.Action)
deriving DecidableEq

namespace State

variable (s : State)

/-- A call changes together with its last stream. -/
def onCall (c : Nat) (f : Call → Call) (g : Attempt → Attempt) : Option State :=
  match s.calls[c]? with
  | none => none
  | some call =>
    match s.attempts[call.stream]? with
    | none => none
    | some a => some { s with
        calls := s.calls.set c (f call)
        attempts := s.attempts.set call.stream (g a) }

def write (c : Nat) (r : FileAnalyzerRequestPb) : Option State :=
  s.onCall c (fun call => { call with sent := call.sent ++ [r] })
    fun a => { a with transit := a.transit ++ [r] }

/-- The goroutine reports and returns, and its deferred `CloseSend` runs. -/
def stopSending (c : Nat) (sendErr : Option SendError) : Option State :=
  State.onCall { s with run := some (.closing c sendErr) } c
    (fun call => { call with closed := true }) fun a => { a with closed := true }

/-- `Run` returns to the supervisor. -/
def finish (result : Option RunError) : State :=
  { s with
    run := none
    goroutine := .ended result.isSome
    results := s.results ++ [result] }

def lastStream (c : Nat) : Option Nat := s.calls[c]?.map Call.stream

def broken (c : Nat) : Bool :=
  ((s.lastStream c).bind fun k => s.attempts[k]?).any Attempt.broken

def ended (c : Nat) : Option (Option Grpc.FileAnalyzer.Summary) :=
  match (s.lastStream c).bind fun k => s.server.streams[k]? with
  | some (.ended summary) => some summary
  | _ => none

/-- `Send` may return an error. -/
def refuses (c : Nat) : Bool := s.cancelled || s.broken c || (s.ended c).isSome

/-- `CloseAndRecv` may return this. The handler of the server never ends without
an error before its response. -/
def mayAnswer (c : Nat) : Answer → Bool
  | .response => (s.ended c).any Option.isSome
  | .eof => false
  | .failed => s.cancelled || s.broken c || s.ended c = some none

/-- The streams as the server's `Recv` leaves them; its context is done only
where the stream broke. -/
def streamsAfter : Grpc.FileAnalyzer.Action → Option (List Attempt)
  | .connect => none
  | .recv k message =>
    match s.attempts[k]? with
    | none => none
    | some a => (a.recv message).map fun b => s.attempts.set k b
  | .contextDone k => if s.attempts[k]?.any Attempt.broken then some s.attempts else none
  | _ => some s.attempts

/-- A new stream of call `c`, on which what was sent so far is written. -/
def connect (c : Nat) (call : Call) : State :=
  { s with
    attempts := s.attempts ++
      [{ call := c, received := [], transit := call.sent, closed := call.closed, broken := false }]
    server := { s.server with streams := s.server.streams ++ [Phase.receiving] } }

end State

def startOfCall (stream : Nat) : Call where
  sent := []
  closed := false
  committed := false
  attempts := 1
  stream := stream

/-- The requests that a failed step of the goroutine leaves behind. -/
def RunPoint.hand : RunPoint → List FileAnalyzerRequest
  | acquiring _ req => [req]
  | sending _ req => [req]
  | _ => []

def drop (c : Nat) (reqs : List FileAnalyzerRequest) : List (FileAnalyzerRequest × Fate) :=
  reqs.map fun req => (req, Fate.dropped c)

def step (maxAttempts : Nat) (s : State) : Action → Option State
  | .produce req =>
    if s.fileChanClosed then none
    else some { s with fileChan := s.fileChan ++ [req], produced := s.produced ++ [req] }
  | .signal => some { s with signalled := true }
  -- `main` does not wait for the supervisor's context
  | .closeFileChan => if s.signalled then some { s with fileChanClosed := true } else none
  | .cancel => some { s with cancelled := true }
  | .supervise m =>
    match s.run, m with
    | some _, _ => none
    | none, .finish _ => none
    | none, m => (s.goroutine.next s.cancelled m).map fun p => { s with
        goroutine := p
        run := if p = .running then some .opening else none
        inFlight := 0 }
  | .opened ok =>
    match s.run with
    | some .opening =>
      if ok then
        some { s.connect s.calls.length (startOfCall s.attempts.length) with
          calls := s.calls ++ [startOfCall s.attempts.length]
          run := some (.selecting s.calls.length) }
      else some (s.finish (some .unableToOpen))
    | _ => none
  | .ctxDone =>
    if s.cancelled then
      match s.run with
      | some (.selecting c) => s.stopSending c (some .canceled)
      | some (.acquiring c req) =>
        State.stopSending { s with taken := s.taken ++ drop c [req] } c (some .canceled)
      | _ => none
    else none
  | .receive =>
    match s.run, s.fileChan with
    | some (.selecting c), req :: rest =>
      some { s with fileChan := rest, run := some (.acquiring c req) }
    | some (.selecting c), [] => if s.fileChanClosed then s.stopSending c none else none
    | _, _ => none
  | .acquire =>
    match s.run with
    | some (.acquiring c req) =>
      if s.inFlight < maxInFlight then
        some { s with inFlight := s.inFlight + 1, run := some (.sending c req) }
      else none
    | _ => none
  | .send ok =>
    match s.run with
    | some (.sending c req) =>
      if ok then
        State.write { s with
          inFlight := s.inFlight - 1
          masterBytes := s.masterBytes + req.size
          run := some (.selecting c)
          taken := s.taken ++ [(req, Fate.sent c)] } c (toPbFileAnalyzerRequest req)
      else if s.refuses c then
        State.stopSending { s with
          inFlight := s.inFlight - 1
          taken := s.taken ++ drop c [req] } c (some .send)
      else none
    | _ => none
  | .closeAndRecv answer =>
    match s.run with
    | some (.closing c sendErr) =>
      if s.mayAnswer c answer then some (s.finish (runResult sendErr answer)) else none
    | _ => none
  | .commit c =>
    match s.calls[c]? with
    | none => none
    | some call => some { s with calls := s.calls.set c { call with committed := true } }
  | .retry =>
    match s.run with
    | some (.sending c _) | some (.closing c _) =>
      match s.calls[c]? with
      | none => none
      | some call =>
        if s.cancelled = false ∧ call.committed = false ∧ s.broken c = true ∧
            call.attempts < maxAttempts then
          some { s.connect c call with
            calls := s.calls.set c
              { call with attempts := call.attempts + 1, stream := s.attempts.length } }
        else none
    | _ => none
  | .disconnect k =>
    match s.attempts[k]? with
    | none => none
    | some a => some { s with attempts := s.attempts.set k { a with broken := true } }
  | .serve a =>
    match s.streamsAfter a, Grpc.FileAnalyzer.step s.server a with
    | some attempts, some server => some { s with attempts := attempts, server := server }
    | _, _ => none

/-- The supervisor has started the goroutine of the worker. -/
def machine (maxAttempts : Nat) : Machine State Action where
  start :=
    { signalled := false, cancelled := false, fileChan := [], fileChanClosed := false,
      goroutine := .checking, run := none, inFlight := 0, masterBytes := 0, calls := [],
      attempts := [], server := Grpc.FileAnalyzer.machine.start, produced := [], taken := [],
      results := [] }
  step := step maxAttempts

/-! ## What a step does -/

/-- The slots of the semaphore that the goroutine holds. -/
def RunPoint.slots : RunPoint → Nat
  | sending _ _ => 1
  | _ => 0

/-- The goroutine is in its loop for call `c`. -/
def RunPoint.Loops (c : Nat) : RunPoint → Prop
  | selecting d => d = c
  | acquiring d _ => d = c
  | sending d _ => d = c
  | _ => False

/-- Why the goroutine may report this. -/
def SendError.Justified (s : State) (c : Nat) : Option SendError → Prop
  | none => s.fileChanClosed = true
  | some .canceled => s.cancelled = true
  | some .send => s.refuses c = true

inductive Steps (maxAttempts : Nat) (s : State) : State → Prop
  | produce (req : FileAnalyzerRequest) :
      Steps maxAttempts s
        { s with fileChan := s.fileChan ++ [req], produced := s.produced ++ [req] }
  | signal : Steps maxAttempts s { s with signalled := true }
  | closeFileChan (hDone : s.signalled = true) :
      Steps maxAttempts s { s with fileChanClosed := true }
  | cancel : Steps maxAttempts s { s with cancelled := true }
  | supervise {m : Supervisor.Move} {p : Supervisor.Point} (hRun : s.run = none)
      (hMove : ∀ o, m ≠ .finish o) (hGoes : Supervisor.Goes s.cancelled s.goroutine m p) :
      Steps maxAttempts s { s with
        goroutine := p
        run := if p = .running then some .opening else none
        inFlight := 0 }
  | opened (hRun : s.run = some .opening) :
      Steps maxAttempts s
        { s.connect s.calls.length (startOfCall s.attempts.length) with
          calls := s.calls ++ [startOfCall s.attempts.length]
          run := some (.selecting s.calls.length) }
  | unopened (hRun : s.run = some .opening) : Steps maxAttempts s (s.finish (some .unableToOpen))
  | take {c : Nat} {req : FileAnalyzerRequest} {rest : List FileAnalyzerRequest}
      (hRun : s.run = some (.selecting c)) (hChan : s.fileChan = req :: rest) :
      Steps maxAttempts s { s with fileChan := rest, run := some (.acquiring c req) }
  | acquire {c : Nat} {req : FileAnalyzerRequest} (hRun : s.run = some (.acquiring c req)) :
      Steps maxAttempts s { s with inFlight := s.inFlight + 1, run := some (.sending c req) }
  | send {c : Nat} {req : FileAnalyzerRequest} {call : Call} {a : Attempt}
      (hRun : s.run = some (.sending c req)) (hCall : s.calls[c]? = some call)
      (hStream : s.attempts[call.stream]? = some a) :
      Steps maxAttempts s
        { s with
          inFlight := s.inFlight - 1
          masterBytes := s.masterBytes + req.size
          run := some (.selecting c)
          taken := s.taken ++ [(req, Fate.sent c)]
          calls := s.calls.set c { call with sent := call.sent ++ [toPbFileAnalyzerRequest req] }
          attempts := s.attempts.set call.stream
            { a with transit := a.transit ++ [toPbFileAnalyzerRequest req] } }
  | stop {c : Nat} {p : RunPoint} {sendErr : Option SendError} {call : Call} {a : Attempt}
      (hRun : s.run = some p) (hLoop : p.Loops c)
      (hSlot : p.slots = if sendErr = some .send then 1 else 0)
      (hWhy : SendError.Justified s c sendErr)
      (hCall : s.calls[c]? = some call) (hStream : s.attempts[call.stream]? = some a) :
      Steps maxAttempts s
        { s with
          inFlight := s.inFlight - p.slots
          taken := s.taken ++ drop c p.hand
          run := some (.closing c sendErr)
          calls := s.calls.set c { call with closed := true }
          attempts := s.attempts.set call.stream { a with closed := true } }
  | finish {c : Nat} {sendErr : Option SendError} {answer : Answer}
      (hRun : s.run = some (.closing c sendErr)) (hAnswer : s.mayAnswer c answer = true) :
      Steps maxAttempts s (s.finish (runResult sendErr answer))
  | commit {c : Nat} {call : Call} (hCall : s.calls[c]? = some call) :
      Steps maxAttempts s { s with calls := s.calls.set c { call with committed := true } }
  | retry {c : Nat} {call : Call} (hCall : s.calls[c]? = some call)
      (hMore : call.attempts < maxAttempts) :
      Steps maxAttempts s
        { s.connect c call with
          calls := s.calls.set c
            { call with attempts := call.attempts + 1, stream := s.attempts.length } }
  | disconnect {k : Nat} {a : Attempt} (hStream : s.attempts[k]? = some a) :
      Steps maxAttempts s { s with attempts := s.attempts.set k { a with broken := true } }
  | serve {a : Grpc.FileAnalyzer.Action} {attempts : List Attempt}
      {server : Grpc.FileAnalyzer.ServerState} (hStreams : s.streamsAfter a = some attempts)
      (hServer : Grpc.FileAnalyzer.step s.server a = some server) :
      Steps maxAttempts s { s with attempts := attempts, server := server }

theorem onCall_eq_some {s t : State} {c : Nat} {f : Call → Call} {g : Attempt → Attempt}
    (h : s.onCall c f g = some t) :
    ∃ call a, s.calls[c]? = some call ∧ s.attempts[call.stream]? = some a ∧
      t = { s with
        calls := s.calls.set c (f call)
        attempts := s.attempts.set call.stream (g a) } := by
  unfold State.onCall at h
  cases hCall : s.calls[c]? with
  | none =>
    rw [hCall] at h
    cases h
  | some call =>
    rw [hCall] at h
    cases hStream : s.attempts[call.stream]? with
    | none =>
      simp only [hStream] at h
      cases h
    | some a =>
      simp only [hStream, Option.some.injEq] at h
      exact ⟨call, a, rfl, hStream, h.symm⟩

theorem steps_of_step {maxAttempts : Nat} {s t : State} {a : Action}
    (h : step maxAttempts s a = some t) : Steps maxAttempts s t := by
  cases a with
  | produce req =>
    simp only [step] at h
    split at h
    · cases h
    · cases h
      exact .produce req
  | signal =>
    cases h
    exact .signal
  | closeFileChan =>
    simp only [step] at h
    split at h
    · cases h
      exact .closeFileChan ‹_›
    · cases h
  | cancel =>
    cases h
    exact .cancel
  | supervise m =>
    simp only [step] at h
    split at h
    · cases h
    · cases h
    · rename_i hRun hMove
      obtain ⟨p, hNext, rfl⟩ := Option.map_eq_some_iff.mp h
      exact .supervise hRun hMove (Supervisor.goes_of_next hNext)
  | opened ok =>
    simp only [step] at h
    split at h
    · split at h
      · cases h
        exact .opened ‹_›
      · cases h
        exact .unopened ‹_›
    · cases h
  | ctxDone =>
    simp only [step] at h
    split at h
    · rename_i hDone
      split at h
      · rename_i c hRun
        obtain ⟨call, a, hCall, hStream, rfl⟩ := onCall_eq_some h
        have hStop := @Steps.stop maxAttempts s c _ (some .canceled) call a hRun rfl rfl hDone hCall
          hStream
        simpa [RunPoint.hand, RunPoint.slots, drop] using hStop
      · rename_i c req hRun
        obtain ⟨call, a, hCall, hStream, rfl⟩ := onCall_eq_some h
        exact @Steps.stop maxAttempts s c _ (some .canceled) call a hRun rfl rfl hDone hCall hStream
      · cases h
    · cases h
  | receive =>
    simp only [step] at h
    split at h
    · rename_i hRun hChan
      cases h
      exact .take hRun hChan
    · rename_i c hRun hChan
      split at h
      · rename_i hClosed
        obtain ⟨call, a, hCall, hStream, rfl⟩ := onCall_eq_some h
        have hStop := @Steps.stop maxAttempts s c _ none call a hRun rfl rfl hClosed hCall hStream
        simpa [RunPoint.hand, RunPoint.slots, drop] using hStop
      · cases h
    · cases h
  | acquire =>
    simp only [step] at h
    split at h
    · split at h
      · cases h
        exact .acquire ‹_›
      · cases h
    · cases h
  | send ok =>
    simp only [step] at h
    split at h
    · rename_i c req hRun
      split at h
      · obtain ⟨call, a, hCall, hStream, rfl⟩ := onCall_eq_some h
        exact .send hRun hCall hStream
      · split at h
        · rename_i hRefused
          obtain ⟨call, a, hCall, hStream, rfl⟩ := onCall_eq_some h
          exact @Steps.stop maxAttempts s c _ (some .send) call a hRun rfl rfl hRefused hCall
            hStream
        · cases h
    · cases h
  | closeAndRecv answer =>
    simp only [step] at h
    split at h
    · split at h
      · cases h
        exact .finish ‹_› ‹_›
      · cases h
    · cases h
  | commit c =>
    simp only [step] at h
    split at h
    · cases h
    · cases h
      exact .commit ‹_›
  | retry =>
    simp only [step] at h
    split at h
    · split at h
      · cases h
      · rename_i hCall
        split at h
        · rename_i hRetry
          cases h
          exact .retry hCall hRetry.2.2.2
        · cases h
    · split at h
      · cases h
      · rename_i hCall
        split at h
        · rename_i hRetry
          cases h
          exact .retry hCall hRetry.2.2.2
        · cases h
    · cases h
  | disconnect k =>
    simp only [step] at h
    split at h
    · cases h
    · cases h
      exact .disconnect ‹_›
  | serve a =>
    simp only [step] at h
    split at h
    · rename_i hStreams hServer
      cases h
      exact .serve hStreams hServer
    · cases h

end ChatLab.Workers.FileSender
