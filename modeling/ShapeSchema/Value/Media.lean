/-!
# Media

Images, sounds, documents and films, given by an address, by their data or by a file.
-/

namespace ShapeSchema

/-- What a media value shows. -/
inductive MediaKind where
  | image | audio | pdf | video
deriving DecidableEq, Inhabited

def MediaKind.text : MediaKind → String
  | .image => "image"
  | .audio => "audio"
  | .pdf => "pdf"
  | .video => "video"

def MediaKind.all : List MediaKind := [.image, .audio, .pdf, .video]

/-- Where a media value comes from. -/
inductive MediaContent where
  | url (url : String)
  | base64 (data : String) (mimeType : Option String)
  | file (path : String)
deriving DecidableEq

structure Media where
  kind : MediaKind
  content : MediaContent
deriving DecidableEq

end ShapeSchema
