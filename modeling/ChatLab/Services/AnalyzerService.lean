import ChatLab.Sink.AnalysisSink

/-!
# The analyzer service

A request of a scanner is checked against the tags of its fields and becomes
an event on the event channel. The stream of the server converts the protobuf
enum first, so a source type is always one of the four names and its check
cannot fail; neither can the lower bounds of the two unsigned numbers.
-/

namespace ChatLab.Services

open Sink

inductive SourceType
  | unspecified | localFixed | removable | network
deriving DecidableEq, Repr

def SourceType.text : SourceType → String
  | .unspecified => "UNSPECIFIED"
  | .localFixed => "LOCAL_FIXED"
  | .removable => "REMOVABLE"
  | .network => "NETWORK"

structure FileAnalyzerRequest where
  path : String
  driveId : String
  size : UInt64
  attributes : UInt32
  mimeType : String
  magicBytes : List UInt8
  scannedAt : Int
  sourceType : SourceType
deriving DecidableEq

/-- The zero `time.Time`, in nanoseconds from the Unix epoch. -/
def zeroTime : Int := -62135596800 * 1000000000

structure FieldError where
  field : String
  tag : String
deriving DecidableEq, Repr

/-- A tag that failed; later tags of the field are not looked at. -/
def failed (field tag : String) (holds : Bool) : Option FieldError :=
  if holds then none else some { field := field, tag := tag }

/-- `validator.Struct`; the length of a string is its number of runes. -/
def FileAnalyzerRequest.validate (r : FileAnalyzerRequest) : List FieldError :=
  [(failed "Path" "required" (r.path ≠ "")).or (failed "Path" "max" (r.path.length ≤ 1024)),
    failed "DriveID" "required" (r.driveId ≠ ""),
    (failed "MimeType" "required" (r.mimeType ≠ "")).or
      (failed "MimeType" "max" (r.mimeType.length ≤ 128)),
    failed "MagicBytes" "max" (r.magicBytes.length ≤ 64),
    failed "ScannedAt" "required" (r.scannedAt ≠ zeroTime)].filterMap id

/-- The payload of the event that `toEvent` builds with a fresh identifier. -/
def toEvent (request : FileAnalyzerRequest) (id : UUID) : FileAnalyse where
  id := id
  path := request.path
  driveId := request.driveId
  size := request.size
  rawMimeType := request.mimeType
  effectiveMimeType := MIME.toMIME request.mimeType
  scannedAt := request.scannedAt
  sourceType := request.sourceType.text

end ChatLab.Services
