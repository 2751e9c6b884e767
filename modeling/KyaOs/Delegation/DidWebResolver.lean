import KyaOs.Utils.UriComponent

/-!
# The did:web resolver

Where the delegation layer fetches the document of a did:web DID: the host is decoded whole
and must be a host and nothing more, and each label after it is one path segment.
-/

open Js

namespace KyaOs.DidWebResolver

def didWebPrefix : JsString := js "did:web:"

def isDidWeb (did : JsString) : Bool := startsWith did didWebPrefix

/-- The labels between the colons of a did:web DID. -/
def labels (did : JsString) : List JsString := (did.drop didWebPrefix.length).splitOn 0x3A

/-- `\p\x7bCc\x7d`. -/
def isControl (u : UInt16) : Bool := u ≤ 0x1F || (0x7F ≤ u && u ≤ 0x9F)

/-- Would end the host of a URL, or stand where none can. -/
def endsHost (u : UInt16) : Bool := u ∈ js "@/\\?#" || isWhiteSpace u || isControl u

/-- `host` has at most one colon, those of a bracketed literal aside. -/
def hasOnePort (host : JsString) : Bool :=
  let afterLiteral :=
    if startsWith host (js "[") then
      match host.idxOf? 0x5D with
      | some close => host.drop (close + 1)
      | none => host
    else host
  (afterLiteral.splitOn 0x3A).length ≤ 2

/-- What a decoded host may be. -/
def isHost (host : JsString) : Bool := host ≠ [] && !host.any endsHost && hasOnePort host

def parseDidWebHost (label : JsString) : Option JsString :=
  match decodeURIComponent label with
  | .error _ => none
  | .ok host => if isHost host then some host else none

/-- What a decoded path segment may be. -/
def isSegment (segment : JsString) : Bool :=
  segment ≠ [] && segment ≠ js "." && segment ≠ js ".." && !segment.any (· ∈ js "/\\?#")

structure ParsedDidWeb where
  domain : JsString
  path : List JsString

def parseDidWeb (did : JsString) : Option ParsedDidWeb :=
  if !isDidWeb did ∨ did.drop didWebPrefix.length = [] then none
  else do
    let domain ← parseDidWebHost ((labels did).headD [])
    match (labels did).tail.mapM decodeURIComponent with
    | .error _ => none
    | .ok path => if path.all isSegment then some { domain, path } else none

def didWebToUrl (did : JsString) : Option JsString := do
  let parsed ← parseDidWeb did
  return js "https://" ++ parsed.domain ++
    (if parsed.path = [] then js "/.well-known/did.json"
    else js "/" ++ (js "/").intercalate parsed.path ++ js "/did.json")

end KyaOs.DidWebResolver
