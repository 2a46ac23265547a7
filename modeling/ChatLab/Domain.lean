import ChatLab.Uuid
import ChatLab.Foundation.Decimal

/-!
# Domain values

Instants are integers of nanoseconds from the Unix epoch; zones play no part
in anything the program stores or compares. A float64 is its sixty-four bits,
since scores are only copied. MIME types are the constants the program names:
no value of the Go string type outside them is ever built.
-/

namespace ChatLab

/-- `time.Time.UnixNano`: the int64 wraps outside the years 1678 to 2262. -/
def unixNano (t : Int) : Int := Int.bmod t (2 ^ 64)

theorem unixNano_eq_self {t : Int} (hLow : 0 ≤ t) (hHigh : t < 2 ^ 63) : unixNano t = t := by
  refine Int.bmod_eq_of_le ?_ ?_
  · omega
  · omega

abbrev Float64 := UInt64

abbrev FileID := String

abbrev Metric := String

def mb : Int := 1024 * 1024

def UUID.text (u : UUID) : String := String.ofList u.string

@[simp] theorem UUID.parse_text (u : UUID) : UUID.parse u.text.toList = some u := by
  rw [UUID.text, String.toList_ofList, UUID.parse_string]

theorem UUID.text_injective {u v : UUID} (h : u.text = v.text) : u = v := by
  have hParse := congrArg (fun t : String => UUID.parse t.toList) h
  simp only [UUID.parse_text] at hParse
  exact Option.some.inj hParse

inductive MIME
  | unknown | textPlain | textHTML | textCSS
  | applicationPDF | applicationJSON | applicationXML
  | imagePNG | imageJPEG | imageGIF
  | audioMPEG | audioWAV | audioXAIFF
  | videoMP4
deriving DecidableEq, Repr

namespace MIME

def text : MIME → String
  | unknown => "unknown"
  | textPlain => "text/plain"
  | textHTML => "text/html"
  | textCSS => "text/css"
  | applicationPDF => "application/pdf"
  | applicationJSON => "application/json"
  | applicationXML => "application/xml"
  | imagePNG => "image/png"
  | imageJPEG => "image/jpeg"
  | imageGIF => "image/gif"
  | audioMPEG => "audio/mpeg"
  | audioWAV => "audio/wav"
  | audioXAIFF => "audio/x-aiff"
  | videoMP4 => "video/mp4"

/-- `mimetypes.ToMIME` knows the media types that have a specialist or a
viewer; text and structured data fall to `unknown`. -/
def toMIME (m : String) : MIME :=
  ([audioMPEG, audioWAV, audioXAIFF, applicationPDF, imagePNG, imageJPEG, imageGIF,
    videoMP4].find? fun k => m = k.text).getD unknown

theorem toMIME_text_toMIME (m : String) : toMIME (toMIME m).text = toMIME m := by
  have hKnown : ∀ k ∈ [unknown, audioMPEG, audioWAV, audioXAIFF, applicationPDF, imagePNG,
      imageJPEG, imageGIF, videoMP4], toMIME k.text = k := by decide
  apply hKnown
  cases h : [audioMPEG, audioWAV, audioXAIFF, applicationPDF, imagePNG, imageJPEG, imageGIF,
    videoMP4].find? fun k => m = k.text with
  | none =>
    rw [toMIME, h]
    exact List.mem_cons_self
  | some k =>
    rw [toMIME, h]
    exact List.mem_cons_of_mem _ (List.mem_of_find?_eq_some h)

section Detection

/-! The parameter is `mime.ParseMediaType`: the media type without its
parameters, none on error. -/

variable (parseMediaType : String → Option String)

def matches? (detected : String) (expected : MIME) : Bool :=
  match parseMediaType detected with
  | none => false
  | some mt => mt = expected.text

def firstMatch (detected : String) (candidates : List MIME) : Option MIME :=
  candidates.find? (matches? parseMediaType detected)

def isAudio (detected : String) : Option MIME :=
  firstMatch parseMediaType detected [audioMPEG, audioWAV, audioXAIFF]

def isPDF (detected : String) : Option MIME :=
  firstMatch parseMediaType detected [applicationPDF]

def isImage (detected : String) : Option MIME :=
  firstMatch parseMediaType detected [imagePNG, imageJPEG, imageGIF]

/-- `mimetypes.IsAuthorized`; none stands for the pair of Unknown and false. -/
def isAuthorized (detected : String) : Option MIME :=
  (isAudio parseMediaType detected).or
    ((isPDF parseMediaType detected).or (isImage parseMediaType detected))

end Detection

end MIME

end ChatLab
