import KyaOs.Whatwg.PercentEncoding
import Mathlib.Data.List.DropRight
import Mathlib.Data.List.TakeWhile

/-!
# Parsing https URLs

The WHATWG basic URL parser on absolute `https` URLs, over the UTF-8 bytes of its input. Every
byte the parser looks for is ASCII, so bytes and code points make no difference. The host
parser (IDNA, IPv4 and IPv6) is a parameter.
-/

namespace Whatwg

def slash : UInt8 := 0x2F
def backslash : UInt8 := 0x5C
def question : UInt8 := 0x3F
def hash : UInt8 := 0x23
def colon : UInt8 := 0x3A
def atSign : UInt8 := 0x40

def isSlash (b : UInt8) : Bool := b = slash || b = backslash

/-- Ends the path of a URL. -/
def endsPath (b : UInt8) : Bool := b = question || b = hash

/-- Ends the authority of a URL. -/
def endsAuthority (b : UInt8) : Bool := isSlash b || endsPath b

def isTabOrNewline (b : UInt8) : Bool := b = 0x09 || b = 0x0A || b = 0x0D

def isC0OrSpace (b : UInt8) : Bool := b ≤ 0x20

def isDigitByte (b : UInt8) : Bool := 0x30 ≤ b && b ≤ 0x39

def lowerByte (b : UInt8) : UInt8 := if 0x41 ≤ b && b ≤ 0x5A then b + 0x20 else b

/-- May stand in a serialized host or port. -/
def isHostByte (b : UInt8) : Bool := 0x20 < b && b < 0x7F && !endsAuthority b && b ≠ atSign

/-- The host parser of special URLs, giving the serialized host. -/
structure HostParser where
  parse : Bytes → Option Bytes
  plain : ∀ {text host}, parse text = some host → ∀ b ∈ host, isHostByte b = true

/-- An https URL record. -/
structure Url where
  username : Bytes := []
  password : Bytes := []
  host : Bytes
  port : Option Nat
  path : List Bytes
  query : Option Bytes := none
  fragment : Option Bytes := none
deriving DecidableEq

def portText : Option Nat → Bytes
  | none => []
  | some port => colon :: ascii (toString port)

namespace Url

variable (url : Url)

def credentials : Bytes :=
  if url.username = [] ∧ url.password = [] then []
  else url.username ++ (if url.password = [] then [] else colon :: url.password) ++ [atSign]

/-- The host, with the port that is not the default one. -/
def hostText : Bytes := url.host ++ portText url.port

def pathname : Bytes := url.path.flatMap (slash :: ·)

def origin : Bytes := ascii "https://" ++ url.hostText

def href : Bytes :=
  ascii "https://" ++ url.credentials ++ url.hostText ++ url.pathname ++
    (url.query.elim [] (question :: ·)) ++ (url.fragment.elim [] (hash :: ·))

end Url

def isDoubleDot (segment : Bytes) : Bool :=
  segment.map lowerByte ∈ [ascii "..", ascii ".%2e", ascii "%2e.", ascii "%2e%2e"]

def isSingleDot (segment : Bytes) : Bool :=
  segment.map lowerByte ∈ [ascii ".", ascii "%2e"]

def isDotSegment (segment : Bytes) : Bool := isSingleDot segment || isDoubleDot segment

/-- The path after a segment, of which `last` says that no slash follows. -/
def endSegment (path : List Bytes) (segment : Bytes) (last : Bool) : List Bytes :=
  if isDoubleDot segment then path.dropLast ++ (if last then [[]] else [])
  else if isSingleDot segment then path ++ (if last then [[]] else [])
  else path ++ [segment]

def readSegments (path : List Bytes) : List Bytes → List Bytes
  | [] => path
  | segment :: rest =>
    readSegments (endSegment path (percentEncode pathSet segment) rest.isEmpty) rest

/-- The segments of a path, the slash in front of it aside. -/
def splitPath : Bytes → List Bytes
  | [] => [[]]
  | b :: rest => if isSlash b then rest.splitOnP isSlash else (b :: rest).splitOnP isSlash

def readPath (text : Bytes) : List Bytes := readSegments [] (splitPath text)

/-- The text before the port, and the port. -/
def splitPort (inBrackets : Bool) : Bytes → Bytes × Option Bytes
  | [] => ([], none)
  | b :: rest =>
    if b = colon && !inBrackets then ([], some rest)
    else
      let (host, port) :=
        splitPort (if b = 0x5B then true else if b = 0x5D then false else inBrackets) rest
      (b :: host, port)

/-- The port that digits name, if they do, and if it is not the default one. -/
def readPort (digits : Bytes) : Option (Option Nat) :=
  let port := digits.foldl (fun n b => 10 * n + (b.toNat - 0x30)) 0
  if !digits.all isDigitByte || 65535 < port then none
  else if digits = [] ∨ port = 443 then some none
  else some (some port)

namespace HostParser

variable (hosts : HostParser)

/-- The host and the port of an authority without userinfo. -/
def readHostPort (text : Bytes) : Option (Bytes × Option Nat) := do
  let (hostname, digits) := splitPort false text
  if hostname = [] then none
  else
    let host ← hosts.parse hostname
    match digits with
    | none => return (host, none)
    | some digits => return (host, ← readPort digits)

/-- What follows the slashes of a URL. -/
def readAuthority (text : Bytes) : Option Url := do
  let authority := text.takeWhile (!endsAuthority ·)
  let tail := text.dropWhile (!endsAuthority ·)
  let userinfo := (authority.rdropWhile (· ≠ atSign)).dropLast
  let (host, port) ← hosts.readHostPort (authority.rtakeWhile (· ≠ atSign))
  let afterPath := tail.dropWhile (!endsPath ·)
  let afterQuery := afterPath.dropWhile (· ≠ hash)
  return {
    username := percentEncode userinfoSet (userinfo.takeWhile (· ≠ colon))
    password := percentEncode userinfoSet (userinfo.dropWhile (· ≠ colon)).tail
    host
    port
    path := readPath (tail.takeWhile (!endsPath ·))
    query :=
      if afterPath.head? = some question then
        some (percentEncode specialQuerySet (afterPath.tail.takeWhile (· ≠ hash)))
      else none
    fragment :=
      if afterQuery = [] then none else some (percentEncode fragmentSet afterQuery.tail) }

end HostParser

/-- The text with what surrounds it and with its tabs and newlines taken out. -/
def cleaned (text : Bytes) : Bytes :=
  ((text.dropWhile isC0OrSpace).rdropWhile isC0OrSpace).filter (!isTabOrNewline ·)

/-- What follows the scheme of an https URL. -/
def afterHttps (text : Bytes) : Option Bytes :=
  if ((cleaned text).take 6).map lowerByte = ascii "https:" then some ((cleaned text).drop 6)
  else none

/-- The URL of an absolute https text. -/
def HostParser.parseHttps (hosts : HostParser) (text : Bytes) : Option Url := do
  let rest ← afterHttps text
  hosts.readAuthority (rest.dropWhile isSlash)

/-- May stand in an authority without userinfo. -/
def isAuthorityByte (b : UInt8) : Bool := 0x20 < b && !endsAuthority b && b ≠ atSign

/-- Belongs to one segment of a path. -/
def isSegmentByte (b : UInt8) : Bool := !endsAuthority b && !isTabOrNewline b

/-- A byte that a path keeps as it is. -/
def isPathByte (b : UInt8) : Bool := !pathSet b && !isSlash b

/-- How the kinds of bytes are nested. -/
theorem byteKinds : ∀ b, (isHostByte b = true → isAuthorityByte b = true) ∧
    (isAuthorityByte b = true → endsAuthority b = false ∧ isTabOrNewline b = false) ∧
    (isPathByte b = true → isSegmentByte b = true) ∧
    (isHexDigit b = true → isPathByte b = true) ∧
    (isDigitByte b = true → isHostByte b = true) :=
  forall_byte (by decide +kernel)

theorem endsAuthority_of_isAuthorityByte :
    ∀ b, isAuthorityByte b = true → endsAuthority b = false :=
  fun b h => ((byteKinds b).2.1 h).1

theorem isTabOrNewline_of_isAuthorityByte :
    ∀ b, isAuthorityByte b = true → isTabOrNewline b = false :=
  fun b h => ((byteKinds b).2.1 h).2

theorem isPathByte_of_isHexDigit : ∀ b, isHexDigit b = true → isPathByte b = true :=
  fun b => (byteKinds b).2.2.2.1

/-- A text that is a dot in lower case, escaped or not, before what is left of a segment. -/
inductive LowerDot (rest : Bytes) : Bytes → Prop where
  | plain {b : UInt8} : lowerByte b = 0x2E → LowerDot rest (b :: rest)
  | escaped {a b c : UInt8} : lowerByte a = percent → lowerByte b = 0x32 → lowerByte c = 0x65 →
      LowerDot rest (a :: b :: c :: rest)

theorem LowerDot.percentDecode_eq {rest text : Bytes} (h : LowerDot rest text) :
    percentDecode text = 0x2E :: percentDecode rest := by
  cases h with
  | @plain b hb =>
      have hdot : ∀ b, lowerByte b = 0x2E → b = 0x2E := forall_byte (by decide +kernel)
      obtain rfl := hdot b hb
      rw [percentDecode_cons rfl]
  | @escaped a b c ha hb hc =>
      have hpercent : ∀ b, lowerByte b = percent → b = percent := forall_byte (by decide +kernel)
      have htwo : ∀ b, lowerByte b = 0x32 → b = 0x32 := forall_byte (by decide +kernel)
      have hletter : ∀ b, lowerByte b = 0x65 → isHexDigit b = true ∧
          hexDigitValue 0x32 * 16 + hexDigitValue b = 0x2E := forall_byte (by decide +kernel)
      obtain rfl := hpercent a ha
      obtain rfl := htwo b hb
      rw [percentDecode_escape rfl (hletter c hc).1, (hletter c hc).2]

theorem lowerDot_of_plain {text lowered : Bytes} (h : text.map lowerByte = 0x2E :: lowered) :
    ∃ rest, LowerDot rest text ∧ rest.map lowerByte = lowered := by
  obtain ⟨b, rest, rfl, hb, hrest⟩ := List.map_eq_cons_iff.mp h
  exact ⟨rest, .plain hb, hrest⟩

theorem lowerDot_of_escaped {text lowered : Bytes}
    (h : text.map lowerByte = percent :: 0x32 :: 0x65 :: lowered) :
    ∃ rest, LowerDot rest text ∧ rest.map lowerByte = lowered := by
  obtain ⟨a, text, rfl, ha, h⟩ := List.map_eq_cons_iff.mp h
  obtain ⟨b, text, rfl, hb, h⟩ := List.map_eq_cons_iff.mp h
  obtain ⟨c, rest, rfl, hc, hrest⟩ := List.map_eq_cons_iff.mp h
  exact ⟨rest, .escaped ha hb hc, hrest⟩

/-- A dot segment decodes to one dot or two. -/
theorem percentDecode_dotSegment {segment : Bytes} (h : isDotSegment segment = true) :
    percentDecode segment = ascii "." ∨ percentDecode segment = ascii ".." := by
  have hone : ∀ {text rest : Bytes}, LowerDot rest text → rest.map lowerByte = [] →
      percentDecode text = ascii "." := by
    intro text rest htext hrest
    rw [htext.percentDecode_eq, List.map_eq_nil_iff.mp hrest]
    rfl
  have htwo : ∀ {text rest : Bytes}, LowerDot rest text → percentDecode rest = ascii "." →
      percentDecode text = ascii ".." := by
    intro text rest htext hrest
    rw [htext.percentDecode_eq, hrest]
    rfl
  simp only [isDotSegment, isSingleDot, isDoubleDot, Bool.or_eq_true, decide_eq_true_eq,
    List.mem_cons, List.not_mem_nil, or_false] at h
  rcases h with (h | h) | h | h | h | h
  · obtain ⟨rest, htext, hrest⟩ := lowerDot_of_plain h
    exact .inl (hone htext hrest)
  · obtain ⟨rest, htext, hrest⟩ := lowerDot_of_escaped h
    exact .inl (hone htext hrest)
  · obtain ⟨rest, htext, h⟩ := lowerDot_of_plain h
    obtain ⟨last, hrest, hlast⟩ := lowerDot_of_plain h
    exact .inr (htwo htext (hone hrest hlast))
  · obtain ⟨rest, htext, h⟩ := lowerDot_of_plain h
    obtain ⟨last, hrest, hlast⟩ := lowerDot_of_escaped h
    exact .inr (htwo htext (hone hrest hlast))
  · obtain ⟨rest, htext, h⟩ := lowerDot_of_escaped h
    obtain ⟨last, hrest, hlast⟩ := lowerDot_of_plain h
    exact .inr (htwo htext (hone hrest hlast))
  · obtain ⟨rest, htext, h⟩ := lowerDot_of_escaped h
    obtain ⟨last, hrest, hlast⟩ := lowerDot_of_escaped h
    exact .inr (htwo htext (hone hrest hlast))

section Path

variable {segments path : List Bytes} {segment : Bytes}

theorem splitOnP_intercalate (h : ∀ segment ∈ segments, ∀ b ∈ segment, isSlash b = false)
    (hne : segments ≠ []) : ([slash].intercalate segments).splitOnP isSlash = segments := by
  induction segments with
  | nil => exact absurd rfl hne
  | cons segment rest ih =>
      have hsegment := h segment List.mem_cons_self
      cases rest with
      | nil => simpa using List.splitOnP_eq_singleton hsegment
      | cons next others =>
          have hrest := ih (fun s hs => h s (List.mem_cons_of_mem _ hs)) (List.cons_ne_nil _ _)
          rw [List.intercalate_cons_cons, List.append_assoc, List.singleton_append,
            List.splitOnP_append_cons_of_forall_mem hsegment slash rfl, hrest]

/-- Segments that are no dot segments are read in order. -/
theorem readSegments_eq (h : ∀ segment ∈ segments,
    isDotSegment (percentEncode pathSet segment) = false) :
    readSegments path segments = path ++ segments.map (percentEncode pathSet) := by
  induction segments generalizing path with
  | nil => simp [readSegments]
  | cons segment rest ih =>
      obtain ⟨hsingle, hdouble⟩ := Bool.or_eq_false_iff.mp (h segment List.mem_cons_self)
      have hend : endSegment path (percentEncode pathSet segment) rest.isEmpty =
          path ++ [percentEncode pathSet segment] := by
        simp [endSegment, hsingle, hdouble]
      rw [readSegments, hend, ih fun s hs => h s (List.mem_cons_of_mem _ hs)]
      simp

theorem readPath_eq (hne : segments ≠ [])
    (hslash : ∀ segment ∈ segments, ∀ b ∈ segment, isSlash b = false)
    (hdot : ∀ segment ∈ segments, isDotSegment (percentEncode pathSet segment) = false) :
    readPath (slash :: [slash].intercalate segments) = segments.map (percentEncode pathSet) := by
  rw [readPath, splitPath, if_pos (by decide), splitOnP_intercalate hslash hne,
    readSegments_eq hdot, List.nil_append]

/-- What a path is made of. -/
def IsPathSegment (segment : Bytes) : Prop :=
  (∀ b ∈ segment, isPathByte b = true) ∧ isDotSegment segment = false

theorem isPathSegment_nil : IsPathSegment [] := ⟨by simp, by decide⟩

theorem mem_endSegment {last : Bool} (hpath : ∀ s ∈ path, IsPathSegment s)
    (hsegment : ∀ b ∈ segment, isPathByte b = true) :
    ∀ s ∈ endSegment path segment last, IsPathSegment s := by
  have hlast : ∀ s ∈ (if last then [[]] else [] : List Bytes), IsPathSegment s := by
    intro s hs
    cases last with
    | false => cases hs
    | true =>
        obtain rfl := List.mem_singleton.mp hs
        exact isPathSegment_nil
  rw [endSegment]
  by_cases hdouble : isDoubleDot segment = true
  · rw [if_pos hdouble]
    exact List.forall_mem_append.mpr ⟨fun s hs => hpath s (List.dropLast_subset path hs), hlast⟩
  · rw [if_neg hdouble]
    by_cases hsingle : isSingleDot segment = true
    · rw [if_pos hsingle]
      exact List.forall_mem_append.mpr ⟨hpath, hlast⟩
    · rw [if_neg hsingle]
      refine List.forall_mem_append.mpr ⟨hpath, ?_⟩
      intro s hs
      obtain rfl := List.mem_singleton.mp hs
      exact ⟨hsegment, by simp [isDotSegment, hsingle, hdouble]⟩

theorem isPathByte_percentEncode (h : ∀ b ∈ segment, isSlash b = false) :
    ∀ b ∈ percentEncode pathSet segment, isPathByte b = true := by
  intro b hb
  obtain ⟨hmem, hset⟩ | rfl | hdigit := mem_percentEncode hb
  · simp [isPathByte, hset, h b hmem]
  · decide
  · exact isPathByte_of_isHexDigit b hdigit

theorem mem_readSegments (hpath : ∀ s ∈ path, IsPathSegment s)
    (hslash : ∀ segment ∈ segments, ∀ b ∈ segment, isSlash b = false) :
    ∀ s ∈ readSegments path segments, IsPathSegment s := by
  induction segments generalizing path with
  | nil => exact hpath
  | cons segment rest ih =>
      have hsegment := isPathByte_percentEncode (hslash segment List.mem_cons_self)
      exact ih (mem_endSegment hpath hsegment) fun s hs => hslash s (List.mem_cons_of_mem _ hs)

theorem isSlash_of_mem_splitOnP {text : Bytes} :
    ∀ segment ∈ text.splitOnP isSlash, ∀ b ∈ segment, isSlash b = false := by
  induction text with
  | nil => simp
  | cons b rest ih =>
      rw [List.splitOnP_cons_eq_if_modifyHead]
      split_ifs with hb
      · exact List.forall_mem_cons.mpr ⟨by simp, ih⟩
      · obtain ⟨first, others, hsplit⟩ :=
          List.exists_cons_of_ne_nil (List.splitOnP_ne_nil isSlash rest)
        rw [hsplit] at ih ⊢
        obtain ⟨hfirst, hothers⟩ := List.forall_mem_cons.mp ih
        refine List.forall_mem_cons.mpr ⟨List.forall_mem_cons.mpr ⟨?_, hfirst⟩, hothers⟩
        exact Bool.not_eq_true _ ▸ hb

/-- Whatever the text, the segments read are no dot segments and keep their bytes. -/
theorem mem_readPath {text : Bytes} : ∀ s ∈ readPath text, IsPathSegment s := by
  refine mem_readSegments (by simp) ?_
  cases text with
  | nil => simp [splitPath]
  | cons b rest =>
      rw [splitPath]
      split_ifs <;> exact isSlash_of_mem_splitOnP

end Path

section Text

variable {hosts : HostParser} {authority tail text : Bytes} {segments : List Bytes} {url : Url}

theorem forall_segment_bytes {p : UInt8 → Prop} (hslash : p slash)
    (h : ∀ segment ∈ segments, ∀ b ∈ segment, p b) : ∀ b ∈ [slash].intercalate segments, p b := by
  induction segments with
  | nil => simp
  | cons segment rest ih =>
      have hrest := ih fun s hs => h s (List.mem_cons_of_mem _ hs)
      have hsegment := h segment List.mem_cons_self
      cases rest with
      | nil => simpa using hsegment
      | cons next others =>
          rw [List.intercalate_cons_cons]
          simp only [List.forall_mem_append]
          exact ⟨⟨hsegment, by simpa using hslash⟩, hrest⟩

/-- Text with nothing to clean is read from its authority on. -/
theorem parseHttps_eq (hclean : ∀ b ∈ text, isTabOrNewline b = false)
    (hstart : ∃ b rest, text = b :: rest ∧ isSlash b = false)
    (hend : ∀ b ∈ text.getLast?, isC0OrSpace b = false) :
    hosts.parseHttps (ascii "https://" ++ text) = hosts.readAuthority text := by
  obtain ⟨b, rest, rfl, hb⟩ := hstart
  have hfront : (ascii "https://" ++ b :: rest).dropWhile isC0OrSpace =
      ascii "https://" ++ b :: rest := rfl
  have hback : (ascii "https://" ++ b :: rest).rdropWhile isC0OrSpace =
      ascii "https://" ++ b :: rest := by
    rw [List.rdropWhile_eq_self_iff]
    intro hne
    rw [List.getLast_append_of_right_ne_nil _ _ (List.cons_ne_nil b rest),
      hend _ (List.getLast?_eq_some_getLast (List.cons_ne_nil b rest))]
    exact Bool.false_ne_true
  have hfilter : (ascii "https://" ++ b :: rest).filter (!isTabOrNewline ·) =
      ascii "https://" ++ b :: rest := by
    rw [List.filter_eq_self, List.forall_mem_append]
    exact ⟨List.all_eq_true.mp (by decide), fun b hmem => by rw [hclean b hmem]; rfl⟩
  have hcleaned : cleaned (ascii "https://" ++ b :: rest) = ascii "https://" ++ b :: rest := by
    rw [cleaned, hfront, hback, hfilter]
  have hafter : afterHttps (ascii "https://" ++ b :: rest) = some (ascii "//" ++ b :: rest) := by
    rw [afterHttps, hcleaned]
    rfl
  have hdrop : (ascii "//" ++ b :: rest).dropWhile isSlash = b :: rest := by
    show (b :: rest).dropWhile isSlash = b :: rest
    rw [List.dropWhile_cons_of_neg (by simp [hb])]
  rw [HostParser.parseHttps, hafter, Option.bind_eq_bind, Option.bind_some, hdrop]

/-- An authority that ends where the path begins is read as a host and a port. -/
theorem readAuthority_eq (hauthority : ∀ b ∈ authority, isAuthorityByte b = true)
    (htail : tail = [] ∨ ∃ rest, tail = slash :: rest ∧ ∀ b ∈ rest, endsPath b = false) :
    hosts.readAuthority (authority ++ tail) =
      (hosts.readHostPort authority).map fun read =>
        { host := read.1, port := read.2, path := readPath tail } := by
  have hplain : ∀ b ∈ authority, (!endsAuthority b) = true := fun b hb => by
    rw [endsAuthority_of_isAuthorityByte b (hauthority b hb)]
    rfl
  have hat : ∀ b ∈ authority, decide (b ≠ atSign) = true := fun b hb => by
    have := hauthority b hb
    simp only [isAuthorityByte, Bool.and_eq_true] at this
    exact this.2
  have hstops : tail.takeWhile (!endsAuthority ·) = [] ∧
      tail.dropWhile (!endsAuthority ·) = tail := by
    obtain rfl | ⟨rest, rfl, -⟩ := htail
    · exact ⟨rfl, rfl⟩
    · exact ⟨rfl, rfl⟩
  have hpath : ∀ b ∈ tail, (!endsPath b) = true := by
    obtain rfl | ⟨rest, rfl, hrest⟩ := htail
    · simp
    · exact List.forall_mem_cons.mpr ⟨rfl, fun b hb => by rw [hrest b hb]; rfl⟩
  have htake : (authority ++ tail).takeWhile (!endsAuthority ·) = authority := by
    rw [List.takeWhile_append_of_pos hplain, hstops.1, List.append_nil]
  have hdrop : (authority ++ tail).dropWhile (!endsAuthority ·) = tail := by
    rw [List.dropWhile_append_of_pos hplain, hstops.2]
  rw [HostParser.readAuthority]
  simp only [htake, hdrop, List.rtakeWhile_eq_self_iff.mpr hat,
    List.rdropWhile_eq_nil_iff.mpr hat, List.takeWhile_eq_self_iff.mpr hpath,
    List.dropWhile_eq_nil_iff.mpr hpath]
  cases hosts.readHostPort authority with
  | none => rfl
  | some read => rfl

theorem authority_start (hne : authority ≠ [])
    (hauthority : ∀ b ∈ authority, isAuthorityByte b = true) :
    ∃ b rest, authority ++ tail = b :: rest ∧ isSlash b = false := by
  obtain ⟨b, rest, rfl⟩ := List.exists_cons_of_ne_nil hne
  have hends := endsAuthority_of_isAuthorityByte b (hauthority b List.mem_cons_self)
  exact ⟨b, rest ++ tail, rfl, (Bool.or_eq_false_iff.mp hends).1⟩

/-- The URL of an authority and of path segments that are no dot segments. -/
theorem parseHttps_path (hne : authority ≠ [])
    (hauthority : ∀ b ∈ authority, isAuthorityByte b = true) (hsegments : segments ≠ [])
    (hbytes : ∀ segment ∈ segments, ∀ b ∈ segment, isSegmentByte b = true)
    (hdot : ∀ segment ∈ segments, isDotSegment (percentEncode pathSet segment) = false)
    (hend : ∀ b ∈ ([slash].intercalate segments).getLast?, isC0OrSpace b = false) :
    hosts.parseHttps (ascii "https://" ++ (authority ++ slash :: [slash].intercalate segments)) =
      (hosts.readHostPort authority).map fun read =>
        { host := read.1, port := read.2, path := segments.map (percentEncode pathSet) } := by
  have hends : ∀ b, isSegmentByte b = true →
      endsAuthority b = false ∧ isTabOrNewline b = false := by
    intro b hb
    simpa [isSegmentByte] using hb
  have hclean : ∀ b ∈ authority ++ slash :: [slash].intercalate segments,
      isTabOrNewline b = false := by
    rw [List.forall_mem_append, List.forall_mem_cons]
    exact ⟨fun b hb => isTabOrNewline_of_isAuthorityByte b (hauthority b hb), rfl,
      forall_segment_bytes rfl fun s hs b hb => (hends b (hbytes s hs b hb)).2⟩
  have hlast : ∀ b ∈ (authority ++ slash :: [slash].intercalate segments).getLast?,
      isC0OrSpace b = false := by
    rw [List.getLast?_append, List.getLast?_cons, Option.some_or]
    intro b hb
    obtain rfl := Option.mem_some_iff.mp hb
    cases hjoined : ([slash].intercalate segments).getLast? with
    | none => rfl
    | some last => exact hend last hjoined
  rw [parseHttps_eq hclean (authority_start hne hauthority) hlast,
    readAuthority_eq hauthority (.inr ⟨_, rfl, ?_⟩), readPath_eq hsegments ?_ hdot]
  · intro s hs b hb
    exact (Bool.or_eq_false_iff.mp (hends b (hbytes s hs b hb)).1).1
  · exact forall_segment_bytes rfl fun s hs b hb =>
      (Bool.or_eq_false_iff.mp (hends b (hbytes s hs b hb)).1).2

/-- The URL of an authority alone. -/
theorem parseHttps_authority (hne : authority ≠ [])
    (hauthority : ∀ b ∈ authority, isAuthorityByte b = true) :
    hosts.parseHttps (ascii "https://" ++ authority) =
      (hosts.readHostPort authority).map fun read =>
        { host := read.1, port := read.2, path := [[]] } := by
  have hlast : ∀ b ∈ authority.getLast?, isC0OrSpace b = false := by
    intro b hb
    have hbyte := hauthority b (List.mem_of_mem_getLast? hb)
    simp only [isAuthorityByte, Bool.and_eq_true, decide_eq_true_eq] at hbyte
    simpa [isC0OrSpace] using hbyte.1.1
  have hstart := @authority_start authority [] hne hauthority
  have hread := @readAuthority_eq hosts authority [] hauthority (.inl rfl)
  rw [List.append_nil] at hstart hread
  rw [parseHttps_eq (fun b hb => isTabOrNewline_of_isAuthorityByte b (hauthority b hb)) hstart
    hlast, hread]
  rfl

/-- What follows a text is kept with it, unless all of it is dropped. -/
theorem rdropWhile_append {α : Type} {p : α → Bool} (front back : List α) :
    (front ++ back).rdropWhile p =
      if back.all p then front.rdropWhile p else front ++ back.rdropWhile p := by
  rw [List.rdropWhile, List.reverse_append, List.dropWhile_append]
  by_cases hall : back.all p = true
  · have hnil : back.reverse.dropWhile p = [] := by
      rw [List.dropWhile_eq_nil_iff]
      exact fun a ha => List.all_eq_true.mp hall a (List.mem_reverse.mp ha)
    rw [hnil, if_pos hall, List.isEmpty_nil, if_pos rfl]
    rfl
  · have hne : back.reverse.dropWhile p ≠ [] := by
      rw [ne_eq, List.dropWhile_eq_nil_iff]
      exact fun h => hall (List.all_eq_true.mpr fun a ha => h a (List.mem_reverse.mpr ha))
    rw [if_neg hall, if_neg (by simpa using hne), List.reverse_append, List.reverse_reverse]
    rfl

/-- A text with the scheme in front is an https text. -/
theorem afterHttps_isSome (text : Bytes) :
    (afterHttps (ascii "https://" ++ text)).isSome = true := by
  have hfront : (ascii "https://" ++ text).dropWhile isC0OrSpace = ascii "https://" ++ text := rfl
  have hback : ∃ rest, (ascii "https://" ++ text).rdropWhile isC0OrSpace =
      ascii "https://" ++ rest := by
    rw [rdropWhile_append]
    split_ifs
    · exact ⟨[], rfl⟩
    · exact ⟨_, rfl⟩
  obtain ⟨rest, hback⟩ := hback
  rw [afterHttps, cleaned, hfront, hback, List.filter_append]
  rfl

/-- A tab after the scheme is not read. -/
theorem cleaned_tab : cleaned (ascii "https://" ++ 0x09 :: text) =
    cleaned (ascii "https://" ++ text) := by
  have hfront : ∀ rest, (ascii "https://" ++ rest).dropWhile isC0OrSpace =
      ascii "https://" ++ rest := fun _ => rfl
  have htab : (0x09 :: text).all isC0OrSpace = text.all isC0OrSpace := rfl
  rw [cleaned, cleaned, hfront, hfront, rdropWhile_append, rdropWhile_append _ text, htab]
  by_cases hall : text.all isC0OrSpace = true
  · rw [if_pos hall, if_pos hall]
  · rw [if_neg hall, if_neg hall, ← List.singleton_append, rdropWhile_append, if_neg hall,
      List.filter_append, List.filter_append, List.filter_append]
    rfl

theorem parseHttps_tab : hosts.parseHttps (ascii "https://" ++ 0x09 :: text) =
    hosts.parseHttps (ascii "https://" ++ text) := by
  rw [HostParser.parseHttps, HostParser.parseHttps, afterHttps, afterHttps, cleaned_tab]

theorem readAuthority_eq_some (h : hosts.readAuthority text = some url) :
    (∃ authority, hosts.readHostPort authority = some (url.host, url.port)) ∧
      ∃ path, url.path = readPath path := by
  simp only [HostParser.readAuthority, Option.bind_eq_bind, Option.bind_eq_some_iff,
    Option.pure_def, Option.some.injEq] at h
  obtain ⟨⟨host, port⟩, hread, rfl⟩ := h
  exact ⟨⟨_, hread⟩, _, rfl⟩

theorem isPathSegment_of_parse (h : hosts.parseHttps text = some url) :
    ∀ s ∈ url.path, IsPathSegment s := by
  obtain ⟨rest, -, h⟩ := Option.bind_eq_some_iff.mp h
  obtain ⟨-, path, hpath⟩ := readAuthority_eq_some h
  rw [hpath]
  exact mem_readPath

theorem isHostByte_portText (port : Option Nat) : ∀ b ∈ portText port, isHostByte b = true := by
  cases port with
  | none => simp [portText]
  | some port =>
      refine List.forall_mem_cons.mpr ⟨rfl, fun b hb => ?_⟩
      rw [ascii, Nat.toString_eq_repr, Nat.repr, String.toList_ofList] at hb
      obtain ⟨c, hc, rfl⟩ := List.mem_map.mp hb
      have hdigit := Nat.isDigit_of_mem_toDigits (by decide) (by decide) hc
      have hbounds : 48 ≤ c.toNat ∧ c.toNat ≤ 57 := by
        simpa [Char.isDigit, UInt32.le_iff_toNat_le] using hdigit
      have hdigits : ∀ n < 58, 48 ≤ n → isHostByte (UInt8.ofNat n) = true := by decide +kernel
      exact hdigits c.toNat (by omega) hbounds.1

theorem parse_of_readHostPort {host : Bytes} {port : Option Nat}
    (h : hosts.readHostPort authority = some (host, port)) :
    ∃ hostname, hosts.parse hostname = some host := by
  rcases hsplit : splitPort false authority with ⟨hostname, digits⟩
  simp only [HostParser.readHostPort, hsplit, Option.ite_none_left_eq_some] at h
  obtain ⟨host', hhost, h⟩ := Option.bind_eq_some_iff.mp h.2
  refine ⟨hostname, hhost.trans ?_⟩
  cases digits with
  | none =>
      cases h
      rfl
  | some digits =>
      obtain ⟨port, -, h⟩ := Option.bind_eq_some_iff.mp h
      cases h
      rfl

/-- What an authority is read as can stand in one. -/
theorem isHostByte_of_readHostPort {host : Bytes} {port : Option Nat}
    (h : hosts.readHostPort authority = some (host, port)) :
    ∀ b ∈ host ++ portText port, isHostByte b = true := by
  obtain ⟨hostname, hhost⟩ := parse_of_readHostPort h
  exact List.forall_mem_append.mpr ⟨hosts.plain hhost, isHostByte_portText port⟩

theorem isHostByte_of_parse (h : hosts.parseHttps text = some url) :
    ∀ b ∈ url.hostText, isHostByte b = true := by
  obtain ⟨rest, -, h⟩ := Option.bind_eq_some_iff.mp h
  obtain ⟨⟨authority, hread⟩, -⟩ := readAuthority_eq_some h
  exact isHostByte_of_readHostPort hread

end Text

theorem append_flatMap_cons {α : Type} (separator : α) (first : List α) (path : List (List α)) :
    first ++ path.flatMap (separator :: ·) = [separator].intercalate (first :: path) := by
  induction path generalizing first with
  | nil => simp
  | cons segment rest ih =>
      rw [List.flatMap_cons, List.intercalate_cons_cons, ← ih segment]
      simp

namespace Url

variable {url url' : Url}

/-- Without userinfo, query or fragment. -/
def Bare (url : Url) : Prop :=
  url.username = [] ∧ url.password = [] ∧ url.query = none ∧ url.fragment = none

theorem href_of_bare (h : url.Bare) :
    url.href = ascii "https://" ++ (url.hostText ++ url.pathname) := by
  obtain ⟨husername, hpassword, hquery, hfragment⟩ := h
  simp [href, credentials, husername, hpassword, hquery, hfragment]

theorem hostText_pathname : url.hostText ++ url.pathname =
    [slash].intercalate (url.hostText :: url.path) :=
  append_flatMap_cons _ _ _

/-- The slashes of a URL tell its host and its segments apart. -/
theorem splitOn_slash (hhost : slash ∉ url.hostText) (hpath : ∀ s ∈ url.path, slash ∉ s) :
    (url.hostText ++ url.pathname).splitOn slash = url.hostText :: url.path := by
  rw [hostText_pathname]
  exact List.splitOn_intercalate slash (List.forall_mem_cons.mpr ⟨hhost, hpath⟩)
    (List.cons_ne_nil _ _)

end Url

end Whatwg
