import ChatLab.Foundation.Machine
import ChatLab.Foundation.OrderedMap
import ChatLab.Foundation.SliceHeap
import ChatLab.Specialist

/-!
# Broadcasting a file to the specialists

The checks of `Broadcast` run in the caller; the analyses and the sender are
goroutines that share the slice variable `results`. Every access to it is a
step of its own: reading the header, appending through that header, writing
the header back. Headers are read and written whole, and the context is not
cancelled.
-/

namespace ChatLab.Runtime

open Foundation

structure SpecialistClient where
  id : Metric
  capabilities : List MIME
deriving DecidableEq

def SpecialistClient.canHandle (s : SpecialistClient) (mimeType : MIME) : Bool :=
  s.capabilities.contains mimeType

structure Coordinator where
  specialists : OrderedMap Metric SpecialistClient
  maxFileSizeMB : Int
deriving DecidableEq

def Coordinator.add (m : Coordinator) (s : SpecialistClient) : Coordinator :=
  { m with specialists := m.specialists.insert s.id s }

structure FileView where
  stat : Option Int
  data : Option (List UInt8)
deriving DecidableEq

inductive BroadcastError
  | validation
  | fileNotFound (path : String)
  | tooLarge (path : String) (size : Int)
  | readFailed (path : String)
deriving DecidableEq

/-- The tag `required,max=1024` on the path. -/
def validRequest (req : SpecialistRequest) : Bool :=
  req.path ≠ "" && req.path.length ≤ 1024

def Coordinator.checkRequest (m : Coordinator) (view : FileView) (req : SpecialistRequest) :
    Except BroadcastError (List UInt8) :=
  if validRequest req then
    match view.stat with
    | none => .error (.fileNotFound req.path)
    | some size =>
      if size > Int.bmod (m.maxFileSizeMB * mb) (2 ^ 64) then .error (.tooLarge req.path size)
      else
        match view.data with
        | none => .error (.readFailed req.path)
        | some data => .ok data
  else .error .validation

def selectTargets (order : List SpecialistClient) (req : SpecialistRequest) :
    List SpecialistClient :=
  order.filter fun s => s.canHandle req.effectiveMimeType

/-! ## The goroutines of one broadcast -/

/-- Where one analysis goroutine is; a header it holds is its own copy. -/
inductive Phase
  | unlaunched
  | outer
  | analyzing
  | appending
  | loaded (header : Slice)
  | appended (header : Slice)
  | stored
  | finished
deriving DecidableEq

inductive Sender
  | unlaunched
  | waiting (res : Slice)
  | finished
deriving DecidableEq

abbrev Outcome := Except String Response

def targetResult (s : SpecialistClient) (outcome : Outcome) : SpecialistResult :=
  match outcome with
  | .ok resp => { id := some s.id, resp := some resp, specialistErr := none }
  | .error err => { id := some s.id, resp := none, specialistErr := some err }

def blankResult : SpecialistResult := { id := none, resp := none, specialistErr := none }

structure Flight where
  req : SpecialistRequest
  targets : List SpecialistClient
  heap : SliceHeap SpecialistResult
  results : Slice
  phases : List Phase
  sender : Sender
deriving DecidableEq

def launchFlight (req : SpecialistRequest) (targets : List SpecialistClient) : Flight :=
  let made := SliceHeap.empty.make targets.length blankResult
  { req := req, targets := targets, heap := made.1, results := made.2,
    phases := targets.map fun _ => .unlaunched, sender := .unlaunched }

/-- `Broadcast` up to its return: an error, nothing at all when no specialist
handles the type, or the goroutines of a flight. -/
def Coordinator.broadcast (m : Coordinator) (view : FileView) (order : List SpecialistClient)
    (req : SpecialistRequest) : Except BroadcastError (Option Flight) :=
  match m.checkRequest view req with
  | .error e => .error e
  | .ok _ =>
    let targets := selectTargets order req
    if targets = [] then .ok none else .ok (some (launchFlight req targets))

inductive FlightAction
  | launch (i : Nat)
  | spawn (i : Nat)
  | analyze (i : Nat)
  | load (i : Nat)
  | append (i : Nat) (spare : Nat)
  | store (i : Nat)
  | done (i : Nat)
  | capture
  | send
deriving DecidableEq

section Flights

variable (outcome : SpecialistClient → Outcome)

def Flight.advance (s : Flight) (i : Nat) (before after : Phase) : Option Flight :=
  if s.phases[i]? = some before then some { s with phases := s.phases.set i after } else none

/-- One step; the second component is what is sent on the response channel.
The `WaitGroup` is zero when every launched goroutine has finished, and the
sender is launched after the last target. -/
def flightStep (s : Flight) : FlightAction → Option (Flight × Option SpecialistResponse)
  | .launch i =>
    if (s.phases.take i).all (· ≠ .unlaunched) && s.sender = .unlaunched then
      (s.advance i .unlaunched .outer).map fun t => (t, none)
    else none
  | .spawn i => (s.advance i .outer .analyzing).map fun t => (t, none)
  | .analyze i => (s.advance i .analyzing .appending).map fun t => (t, none)
  | .load i => (s.advance i .appending (.loaded s.results)).map fun t => (t, none)
  | .append i spare =>
    match s.phases[i]?, s.targets[i]? with
    | some (.loaded header), some target =>
      let grown := s.heap.append header (targetResult target (outcome target)) blankResult spare
      some ({ s with heap := grown.1, phases := s.phases.set i (.appended grown.2) }, none)
    | _, _ => none
  | .store i =>
    match s.phases[i]? with
    | some (.appended header) =>
      some ({ s with results := header, phases := s.phases.set i .stored }, none)
    | _ => none
  | .done i => (s.advance i .stored .finished).map fun t => (t, none)
  | .capture =>
    if s.phases.all (· ≠ .unlaunched) && s.sender = .unlaunched then
      some ({ s with sender := .waiting s.results }, none)
    else none
  | .send =>
    match s.sender with
    | .waiting res =>
      if s.phases.all (· = .finished) then
        some ({ s with sender := .finished }, some { fileId := s.req.fileId, res := s.heap.read res })
      else none
    | _ => none

end Flights

end ChatLab.Runtime
