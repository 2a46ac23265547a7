import ChatLab.Domain

/-!
# Specialist requests and results

A response carries a value of one of three kinds, of another kind, or none at
all; the readers switch on it. Errors are kept as their text.
-/

namespace ChatLab

structure AudioData where
  transcription : String
  duration : Float64
  language : String
deriving DecidableEq

structure Page where
  number : Int32
  content : String
deriving DecidableEq

structure DocumentData where
  title : String
  author : String
  pageCount : Int32
  language : String
  pages : List Page
deriving DecidableEq

structure Score where
  score : Float64
  label : String
deriving DecidableEq

inductive OneOf
  | score (data : Score)
  | audio (data : AudioData)
  | document (data : DocumentData)
  | other
deriving DecidableEq

structure Response where
  oneOf : Option OneOf
deriving DecidableEq

structure SpecialistRequest where
  fileId : FileID
  path : String
  effectiveMimeType : MIME
deriving DecidableEq

structure SpecialistResult where
  id : Option Metric
  resp : Option Response
  specialistErr : Option String
deriving DecidableEq

structure SpecialistResponse where
  fileId : FileID
  res : List SpecialistResult
deriving DecidableEq

end ChatLab
