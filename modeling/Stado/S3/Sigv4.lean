import Mathlib.Data.Char
import Mathlib.Data.List.Lex
import Mathlib.Data.List.Sort
import Mathlib.Data.Prod.Lex
import Stado.Directory.Texts
import Stado.Library.Percent

/-!
# AWS Signature Version 4

The one algorithm both ends of the S3 endpoint compute: the encodings, the
canonical request and what is signed of it; and the signer's side, a presigned
URL and the headers of one signed request with no body.
-/

namespace Stado.Sigv4

open List

open Directory (isWhitespace isDigit isAlphanumeric debug)

abbrev Text := List Char
abbrev Bytes := List UInt8

instance instLawfulBEqText : LawfulBEq Text := List.instLawfulBEq

def utf8 (text : Text) : Bytes := text.flatMap String.utf8EncodeChar

def fromUtf8 (bytes : Bytes) : Option Text :=
  (ByteArray.mk bytes.toArray).utf8Decode?.map Array.toList

/-! ## Texts -/

def splitOnce (separator : Char) (text : Text) : Option (Text × Text) :=
  match text with
  | [] => none
  | c :: later =>
    if c = separator then some ([], later)
    else (splitOnce separator later).map fun (left, right) => (c :: left, right)

theorem splitOnce_append {separator : Char} {left : Text} (h : separator ∉ left) (right : Text) :
    splitOnce separator (left ++ separator :: right) = some (left, right) := by
  induction left with
  | nil => exact if_pos rfl
  | cons c later ih =>
    have hc : c ≠ separator := fun heq => h (by rw [heq]; exact mem_cons_self)
    rw [cons_append, splitOnce, if_neg hc, ih (not_mem_of_not_mem_cons h)]
    rfl

theorem splitOnce_some {separator : Char} {text left right : Text} :
    splitOnce separator text = some (left, right) ↔
      text = left ++ separator :: right ∧ separator ∉ left := by
  constructor
  · intro h
    induction text generalizing left with
    | nil => cases h
    | cons c later ih =>
      rw [splitOnce] at h
      split_ifs at h with hc
      · obtain ⟨rfl, rfl⟩ := Prod.mk.inj (Option.some.inj h)
        rw [hc]
        exact ⟨rfl, not_mem_nil⟩
      · obtain ⟨⟨before, after⟩, hlater, heq⟩ := Option.map_eq_some_iff.mp h
        obtain ⟨rfl, rfl⟩ := Prod.mk.inj heq
        obtain ⟨rfl, hbefore⟩ := ih hlater
        refine ⟨rfl, ?_⟩
        intro hmem
        rcases mem_cons.mp hmem with heq | hmem
        · exact hc heq.symm
        · exact hbefore hmem
  · rintro ⟨rfl, hleft⟩
    exact splitOnce_append hleft right

theorem splitOn_pieces (separator : Char) (text : Text) : ∃ first pieces,
    text.splitOn separator = first :: pieces ∧ text = first ++ pieces.flatMap (separator :: ·) ∧
      separator ∉ first ∧ ∀ piece ∈ pieces, separator ∉ piece := by
  induction text with
  | nil => exact ⟨[], [], rfl, rfl, not_mem_nil, fun _ h => absurd h not_mem_nil⟩
  | cons c text ih =>
    obtain ⟨first, pieces, hsplit, htext, hfirst, hpieces⟩ := ih
    rw [splitOn_cons_eq_if_modifyHead]
    by_cases hc : c = separator
    · refine ⟨[], first :: pieces, ?_, ?_, not_mem_nil, ?_⟩
      · rw [if_pos (beq_iff_eq.mpr hc), hsplit]
      · rw [hc, flatMap_cons, htext]
        rfl
      · intro piece hpiece
        rcases mem_cons.mp hpiece with rfl | hpiece
        · exact hfirst
        · exact hpieces piece hpiece
    · refine ⟨c :: first, pieces, ?_, ?_, ?_, hpieces⟩
      · rw [if_neg (fun h => hc (beq_iff_eq.mp h)), hsplit]
        rfl
      · rw [htext]
        rfl
      · intro hmem
        rcases mem_cons.mp hmem with heq | hmem
        · exact hc heq.symm
        · exact hfirst hmem

def stripPrefix (stem text : Text) : Option Text :=
  if stem <+: text then some (text.drop stem.length) else none

theorem stripPrefix_append (stem rest : Text) : stripPrefix stem (stem ++ rest) = some rest := by
  rw [stripPrefix, if_pos (prefix_append stem rest), drop_left]

/-- Drop what a test holds of from both ends. -/
def trimMatches (test : Char → Bool) (text : Text) : Text :=
  ((text.dropWhile test).reverse.dropWhile test).reverse

def trim (text : Text) : Text := trimMatches isWhitespace text

def splitWhitespace (text : Text) : List Text :=
  (text.splitOnP isWhitespace).filter fun word => word ≠ []

def join (separator : Char) (parts : List Text) : Text := [separator].intercalate parts

/-- Two lowercase hexadecimal digits a byte. -/
def hexEncode (bytes : Bytes) : Text :=
  bytes.flatMap fun b =>
    [(Percent.digit (b.toNat / 16)).toLower, (Percent.digit (b.toNat % 16)).toLower]

/-! ## The protocol's values -/

def algorithm : Text := "AWS4-HMAC-SHA256".toList
def service : Text := "s3".toList
def terminator : Text := "aws4_request".toList
def unsignedPayload : Text := "UNSIGNED-PAYLOAD".toList
def s3Root : Text := "/s3".toList

/-- The longest lifetime a presigned URL may state: seven days. -/
def maxPresignedSeconds : ℕ := 604800

/-- How far a request's date may stand from the server's clock. -/
def maxClockSkewSeconds : ℤ := 15 * 60

structure Hashes where
  sha256 : Bytes → Bytes
  hmac : Bytes → Bytes → Bytes

def hexSha256 (hashes : Hashes) (data : Bytes) : Text := hexEncode (hashes.sha256 data)

/-- How instants, in nanoseconds, are written and read: `amzDate` is
`%Y%m%dT%H%M%SZ` and `scopeDate` is `%Y%m%d`. -/
structure Calendar where
  amzDate : ℤ → Text
  scopeDate : ℤ → Text
  parse : Text → Except String ℤ

/-! ## Scopes and signatures -/

/-- One credential scope. -/
structure Scope where
  date : Text
  region : Text
  service : Text
deriving DecidableEq

def Scope.s3 (calendar : Calendar) (now : ℤ) (region : Text) : Scope where
  date := calendar.scopeDate now
  region := region
  service := Sigv4.service

def Scope.parse (raw : Text) : Except String Scope :=
  let rawText := debug (String.ofList raw)
  let refused : Except String Scope :=
    .error s!"the credential scope {rawText} is not <date>/<region>/<service>/aws4_request"
  match raw.splitOn '/' with
  | [date, region, service, last] =>
    let dateText := debug (String.ofList date)
    if last ≠ terminator then refused
    else if date.length ≠ 8 ∨ date.all isDigit = false then
      .error s!"the credential scope date {dateText} is not YYYYMMDD"
    else if region = [] then .error "the credential scope names no region"
    else .ok ⟨date, region, service⟩
  | _ => refused

def Scope.render (scope : Scope) : Text :=
  join '/' [scope.date, scope.region, scope.service, terminator]

def signingKey (hashes : Hashes) (secret : Text) (scope : Scope) : Bytes :=
  let date := hashes.hmac (utf8 ("AWS4".toList ++ secret)) (utf8 scope.date)
  let region := hashes.hmac date (utf8 scope.region)
  let service := hashes.hmac region (utf8 scope.service)
  hashes.hmac service (utf8 terminator)

def signature (hashes : Hashes) (key : Bytes) (text : Text) : Text :=
  hexEncode (hashes.hmac key (utf8 text))

def stringToSign (hashes : Hashes) (amzDate : Text) (scope : Scope) (canonical : Text) : Text :=
  join '\n' [algorithm, amzDate, scope.render, hexSha256 hashes (utf8 canonical)]

/-! ## The canonical request -/

/-- The unreserved bytes, and `/` where it separates path segments. -/
def kept (keepSlash : Bool) (b : UInt8) : Bool :=
  (b.toNat < 128 && isAlphanumeric (Percent.ascii b)) ||
    b == 0x2d || b == 0x5f || b == 0x2e || b == 0x7e || (keepSlash && b == 0x2f)

def uriEncode (value : Text) (keepSlash : Bool) : Text :=
  Percent.encode (kept keepSlash) (utf8 value)

/-- Pairs in the order of their names and then their values. -/
def sorted (pairs : List (Text × Text)) : List (Text × Text) :=
  ((pairs.map toLex).insertionSort (· ≤ ·)).map ofLex

def queryField (pair : Text × Text) : Text := pair.1 ++ '=' :: pair.2

def canonicalQuery (pairs : List (Text × Text)) : Text :=
  join '&' ((sorted (pairs.map fun (name, value) =>
    (uriEncode name false, uriEncode value false))).map queryField)

/-- One header's canonical value: each occurrence trimmed, its runs of spaces
collapsed to one, and the occurrences joined. -/
def canonicalHeaderValue (occurrences : List Text) : Text :=
  join ',' (occurrences.map fun value => join ' ' (splitWhitespace value))

def canonicalHeader (header : Text × Text) : Text := header.1 ++ ':' :: header.2 ++ ['\n']

def canonicalRequest (method canonicalUri canonicalQuery : Text) (headers : List (Text × Text))
    (signedHeaders payloadHash : Text) : Text :=
  join '\n' [method, canonicalUri, canonicalQuery, headers.flatMap canonicalHeader, signedHeaders,
    payloadHash]

/-! ## The signer's side -/

structure Credentials where
  accessKeyId : Text
  secretAccessKey : Text

/-- What the signer reads of a URL: its host as text, its port when it is not the
scheme's default, its path, and its query. -/
structure Url where
  host : Option Text
  port : Option ℕ
  path : Text
  query : Option Text

/-- The `host` header value a URL is requested under. -/
def hostHeader (url : Url) : Option Text :=
  url.host.map fun host =>
    match url.port with
    | some port => host ++ ':' :: Nat.toDigits 10 port
    | none => host

/-- The path of one object on an S3 endpoint, as it is put on the wire; an empty
key addresses the bucket itself. -/
def objectPath (basePath bucket key : Text) : Text :=
  let base := (basePath.reverse.dropWhile (· = '/')).reverse
  if key = [] then base ++ '/' :: uriEncode bucket false
  else base ++ '/' :: uriEncode bucket false ++ '/' :: uriEncode key true

/-- The parameters of a presigned URL before its signature. -/
def presignPairs (credentials : Credentials) (scope : Scope) (amzDate : Text) (expires : ℕ) :
    List (Text × Text) :=
  [("X-Amz-Algorithm".toList, algorithm),
    ("X-Amz-Credential".toList, credentials.accessKeyId ++ '/' :: scope.render),
    ("X-Amz-Date".toList, amzDate),
    ("X-Amz-Expires".toList, Nat.toDigits 10 expires),
    ("X-Amz-SignedHeaders".toList, "host".toList)]

/-- A presigned URL for `method` on `path` of `origin`, valid for `expires`
seconds from `now`. Only `host` is signed, and the payload is not. -/
def presign (hashes : Hashes) (calendar : Calendar) (method : Text) (origin : Url) (path : Text)
    (credentials : Credentials) (region : Text) (now : ℤ) (expires : ℕ) : Except String Url :=
  if expires = 0 ∨ maxPresignedSeconds < expires then
    .error s!"a presigned URL lives between 1 and 604800 seconds; {expires} was asked"
  else
    match hostHeader origin with
    | none => .error "the origin names no host"
    | some host =>
      let scope := Scope.s3 calendar now region
      let amzDate := calendar.amzDate now
      let query := canonicalQuery (presignPairs credentials scope amzDate expires)
      let request := canonicalRequest method path query [("host".toList, host)] "host".toList
        unsignedPayload
      let key := signingKey hashes credentials.secretAccessKey scope
      let signed := signature hashes key (stringToSign hashes amzDate scope request)
      .ok { origin with
        path := path
        query := some (query ++ '&' :: "X-Amz-Signature=".toList ++ signed) }

/-- What a header-signed request signs, by the names of the headers: the three
SigV4 asks for and those the request carries. -/
def signedPairs (host payload amzDate : Text) (carried : List (Text × Text)) :
    List (Text × Text) :=
  sorted ([("host".toList, host), ("x-amz-content-sha256".toList, payload),
      ("x-amz-date".toList, amzDate)] ++
    carried.map fun (name, value) => (name.map Char.toLower, canonicalHeaderValue [value]))

/-- The headers of a header-signed request with an empty body: `authorization`,
`x-amz-date` and `x-amz-content-sha256`. The `carried` ones are signed too.
`queryPairs` are the URL's query as its parser reads it. -/
def signEmptyRequest (hashes : Hashes) (calendar : Calendar) (method : Text) (url : Url)
    (queryPairs : List (Text × Text)) (credentials : Credentials) (region : Text) (now : ℤ)
    (carried : List (Text × Text)) : Except String (List (Text × Text)) :=
  match hostHeader url with
  | none => .error "the URL names no host"
  | some host =>
    let scope := Scope.s3 calendar now region
    let amzDate := calendar.amzDate now
    let payload := hexSha256 hashes []
    let headers := signedPairs host payload amzDate carried
    let signedHeaders := join ';' (headers.map Prod.fst)
    let request := canonicalRequest method url.path (canonicalQuery queryPairs) headers
      signedHeaders payload
    let key := signingKey hashes credentials.secretAccessKey scope
    let signed := signature hashes key (stringToSign hashes amzDate scope request)
    .ok [("authorization".toList, algorithm ++ " Credential=".toList ++
          credentials.accessKeyId ++ '/' :: scope.render ++ ", SignedHeaders=".toList ++
          signedHeaders ++ ", Signature=".toList ++ signed),
        ("x-amz-date".toList, amzDate),
        ("x-amz-content-sha256".toList, payload)]

end Stado.Sigv4
