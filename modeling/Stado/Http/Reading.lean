import Stado.Library.Cuts
import Stado.S3.Listing

/-!
# One request read off a connection

The head is read until its blank line or its bound, the body is framed by
Content-Length alone, and what was read past the body is carried to the next
request. Every index, sum and capacity of the way is checked: `none` is where
the listener's task panics.
-/

namespace Stado.Http

open Sigv4
open S3.Listener (Request requestLine headerLine parseUsize shown)
open Cuts (Piece)

/-! ## Machine words and vectors -/

def usizeMax : ℕ := 18446744073709551615

/-- The most bytes a vector holds. -/
def isizeMax : ℕ := 9223372036854775807

theorem isizeMax_lt_usizeMax : isizeMax + isizeMax < usizeMax := by decide

def checkedAdd (a b : ℕ) : Option ℕ := if a + b ≤ usizeMax then some (a + b) else none

def checkedSub (a b : ℕ) : Option ℕ := if b ≤ a then some (a - b) else none

def slice (bytes : Bytes) (start stop : ℕ) : Option Bytes :=
  if start ≤ stop ∧ stop ≤ bytes.length then some ((bytes.take stop).drop start) else none

/-- `Vec::with_capacity`. -/
def withCapacity (bytes : ℕ) : Option Unit := if bytes ≤ isizeMax then some () else none

theorem checkedAdd_eq {a b : ℕ} (h : a + b ≤ usizeMax) : checkedAdd a b = some (a + b) := if_pos h

theorem checkedSub_eq {a b : ℕ} (h : b ≤ a) : checkedSub a b = some (a - b) := if_pos h

theorem slice_eq {bytes : Bytes} {start stop : ℕ} (h : start ≤ stop) (hle : stop ≤ bytes.length) :
    slice bytes start stop = some ((bytes.take stop).drop start) :=
  if_pos ⟨h, hle⟩

theorem withCapacity_eq {bytes : ℕ} (h : bytes ≤ isizeMax) : withCapacity bytes = some () :=
  if_pos h

/-! ## Refusals -/

/-- Why a request was refused, and the status and reason phrase that say so. -/
structure Refusal where
  status : ℕ
  reason : String
  sentence : String
deriving DecidableEq

def malformed (sentence : String) : Refusal := ⟨400, "Bad Request", sentence⟩

def lengthRequired (sentence : String) : Refusal := ⟨411, "Length Required", sentence⟩

def notImplemented (sentence : String) : Refusal := ⟨501, "Not Implemented", sentence⟩

def contentTooLarge (sentence : String) : Refusal := ⟨413, "Content Too Large", sentence⟩

def headTooLarge (what : String) (bound : ℕ) : Refusal :=
  ⟨431, "Request Header Fields Too Large",
    s!"HTTP request head too large: {what} the {bound}-byte head bound " ++
      "(dashboard.request_limits.head_bytes, or this host's available memory when none is declared)"⟩

/-- Why a read gave no request: a refusal that is answered, a body the client
left short, or the socket's own error. -/
inductive ReadError where
  | refused (refusal : Refusal)
  | unexpectedEof (sentence : String)
  | socket (error : String)
deriving DecidableEq

/-- `NonZeroUsize`. -/
structure Bound where
  get : ℕ
  positive : 0 < get
  fits : get ≤ usizeMax

/-- The bounds a request is read within. -/
structure RequestLimits where
  headBytes : Bound
  bodyBytes : Bound
  registryImportBytes : Bound
  operatorConsoleRequestBytes : Bound
  fleetJoinRequestBytes : Bound

/-- What a connection still delivers, as its reads find it, and how it ends:
closed by the client, or with an error. -/
structure Socket where
  pieces : List (Piece UInt8)
  ending : Option String

def Socket.bytes (socket : Socket) : Bytes := Cuts.joined socket.pieces

/-! ## Finding the head -/

/-- The blank line that ends a request head. -/
def headEnd : Bytes := [13, 10, 13, 10]

/-- How reading ends with no request: cleanly, or with an error. -/
inductive Ended where
  | closed
  | failed (error : ReadError)
deriving DecidableEq

inductive HeadRead where
  | found (buf : Bytes) (position : ℕ)
  | ended (ended : Ended)
deriving DecidableEq

/-- Where the head ends in what has arrived, within its bound; with no end, the
bound is not reached yet. -/
def endOfHead (bound : ℕ) (buf : Bytes) : Option (Except Refusal (Option ℕ)) :=
  let length := buf.length
  match Cuts.find headEnd buf with
  | some position =>
    (checkedAdd position headEnd.length).map fun headBytes =>
      if bound < headBytes then .error (headTooLarge s!"its {headBytes} bytes pass" bound)
      else .ok (some position)
  | none =>
    some (if bound ≤ length then
        .error (headTooLarge s!"{length} bytes without its end reach" bound)
      else .ok none)

/-- A read that found nothing: a clean end before any byte of a request. -/
def closedHead (buf : Bytes) : Ended :=
  let length := buf.length
  if buf = [] then .closed
  else .failed (.refused (malformed
    (s!"incomplete HTTP request head: the client closed after {length} bytes without the " ++
      "blank line that ends a head")))

def drained (ending : Option String) (buf : Bytes) : Ended :=
  match ending with
  | some error => .failed (.socket error)
  | none => closedHead buf

/-- What is decided before the next read, and `next` where nothing is. -/
def settled (bound : ℕ) (buf : Bytes) (pieces : List (Piece UInt8))
    (next : Option (HeadRead × List (Piece UInt8))) : Option (HeadRead × List (Piece UInt8)) :=
  match endOfHead bound buf with
  | none => none
  | some (.error refusal) => some (.ended (.failed (.refused refusal)), pieces)
  | some (.ok (some position)) => some (.found buf position, pieces)
  | some (.ok none) => next

/-- Read until the head is complete or the connection ends. A read fills the
buffer's spare room at most, and a buffer with none reads nothing. -/
def readHead (bound : ℕ) (ending : Option String) (buf : Bytes) :
    List (Piece UInt8) → Option (HeadRead × List (Piece UInt8))
  | [] =>
    settled bound buf []
      (some (.ended (if isizeMax ≤ buf.length then closedHead buf else drained ending buf), []))
  | piece :: later =>
    settled bound buf (piece :: later)
      (if isizeMax ≤ buf.length then some (.ended (closedHead buf), piece :: later)
      else if h : isizeMax - buf.length < piece.1.length then
        let full := buf ++ piece.1.take (isizeMax - buf.length)
        let left := piece.rest (isizeMax - buf.length) h :: later
        settled bound full left (some (.ended (closedHead full), left))
      else readHead bound ending (buf ++ piece.1) later)

/-! ## Parsing the head -/

/-- How far an ill-formed sequence of bytes reads as UTF-8: the bytes of it that
cannot be read, or `none` where the bytes end within it. -/
def illFormed : Bytes → Option ℕ
  | [] => none
  | first :: rest =>
    let continues (b : UInt8) : Bool := 0x80 ≤ b && b ≤ 0xbf
    if 0xc2 ≤ first ∧ first ≤ 0xdf then
      match rest with
      | [] => none
      | _ => some 1
    else if 0xe0 ≤ first ∧ first ≤ 0xef then
      match rest with
      | [] => none
      | second :: rest =>
        let low : UInt8 := if first = 0xe0 then 0xa0 else 0x80
        let high : UInt8 := if first = 0xed then 0x9f else 0xbf
        if !(low ≤ second && second ≤ high) then some 1
        else if rest = [] then none
        else some 2
    else if 0xf0 ≤ first ∧ first ≤ 0xf4 then
      match rest with
      | [] => none
      | second :: rest =>
        let low : UInt8 := if first = 0xf0 then 0x90 else 0x80
        let high : UInt8 := if first = 0xf4 then 0x8f else 0xbf
        if !(low ≤ second && second ≤ high) then some 1
        else
          match rest with
          | [] => none
          | third :: rest =>
            if !continues third then some 2
            else if rest = [] then none
            else some 3
    else some 1

/-- How many of the first bytes are whole characters. -/
def validUpTo (bytes : Bytes) : ℕ :=
  ((List.range (bytes.length + 1)).filter fun n => (fromUtf8 (bytes.take n)).isSome).foldl max 0

/-- What `std::str::from_utf8` says of bytes it refuses. -/
def utf8Error (bytes : Bytes) : String :=
  let index := validUpTo bytes
  match illFormed (bytes.drop index) with
  | some length => s!"invalid utf-8 sequence of {length} bytes from index {index}"
  | none => s!"incomplete utf-8 byte sequence from index {index}"

def splitLines : Text → List Text
  | [] => [[]]
  | '\r' :: '\n' :: later => [] :: splitLines later
  | c :: later =>
    match splitLines later with
    | [] => [[c]]
    | line :: lines => (c :: line) :: lines

structure Head where
  method : Text
  path : Text
  version : Text
  headers : List (Text × Text)
  line : ∃ text, requestLine text = some (method, path, version)
  fields : ∀ header ∈ headers, ∃ text, headerLine text = some header

abbrev Headers := {headers : List (Text × Text) //
  ∀ header ∈ headers, ∃ text, headerLine text = some header}

def Headers.push (headers : Headers) {line : Text} (header : Text × Text)
    (h : headerLine line = some header) : Headers :=
  ⟨headers.1 ++ [header], by
    intro other hother
    rcases List.mem_append.mp hother with hmem | hmem
    · exact headers.2 other hmem
    · exact ⟨line, by rw [h, List.mem_singleton.mp hmem]⟩⟩

def transferEncoding : Text := "transfer-encoding".toList
def contentLengthName : Text := "content-length".toList

def readHeaders (headers : Headers) : List Text → Except Refusal Headers
  | [] => .ok headers
  | line :: later =>
    let lineText := shown line
    match h : headerLine line with
    | none => .error (malformed
        s!"HTTP header line {lineText} has no colon between a name and a value")
    | some header =>
      if header.1 = transferEncoding then .error (notImplemented
        ("Transfer-Encoding is unsupported: this listener frames a body by Content-Length " ++
          "only"))
      else if header.1 = contentLengthName ∧
          headers.1.any (fun earlier => earlier.1 = header.1) = true then
        .error (malformed "duplicate Content-Length")
      else readHeaders (headers.push header h) later

/-- `<method> <target> HTTP/<version>`, or a refusal that quotes the line. -/
def readLines (lines : List Text) : Except Refusal Head :=
  let line := lines.headD []
  let lineText := shown line
  match h : requestLine line with
  | none => .error (malformed
      s!"HTTP request line {lineText} is not <method> <target> HTTP/<version>")
  | some (method, path, version) =>
    match readHeaders ⟨[], fun _ h => absurd h List.not_mem_nil⟩ lines.tail with
    | .error refusal => .error refusal
    | .ok headers => .ok ⟨method, path, version, headers.1, ⟨line, h⟩, headers.2⟩

def parseHead (raw : Bytes) : Except Refusal Head :=
  match fromUtf8 raw with
  | none =>
    let error := utf8Error raw
    .error (malformed s!"HTTP request head is not UTF-8: {error}")
  | some text => readLines (splitLines text)

/-! ## Routes and the lengths they admit -/

def isS3Route (path : Text) : Bool :=
  match stripPrefix s3Root path with
  | some rest => rest.isEmpty || rest.head? == some '/'
  | none => false

namespace Head

variable (head : Head)

/-- The target before its query. -/
def route : Text := ((splitOnce '?' head.path).getD (head.path, [])).1

def objectPut : Bool := head.method == "PUT".toList && "/api/object?".toList.isPrefixOf head.path

def objectCompose : Bool :=
  head.method == "POST".toList && head.route == "/api/object/compose".toList

def registryImport : Bool :=
  head.method == "POST".toList && head.route == "/api/registry/import".toList

def s3Request : Bool := isS3Route head.route

def s3Put : Bool := head.s3Request && head.method == "PUT".toList

/-- The first value of a name. -/
def header (name : Text) : Option Text :=
  (head.headers.find? fun header => header.1 = name).map Prod.snd

/-- A client that asked to be told before it sends its body. -/
def expectsContinue : Bool :=
  head.headers.any fun header =>
    header.1 == "expect".toList && header.2.map Char.toLower == "100-continue".toList

/-- A request with no declared length has no body, where its route allows it. -/
def contentLength : Except Refusal ℕ :=
  match head.header contentLengthName with
  | some value =>
    let valueText := shown value
    (parseUsize value).mapError fun error =>
      malformed s!"invalid Content-Length {valueText}: {error}"
  | none =>
    if (head.objectPut || head.objectCompose || head.registryImport || head.s3Put) = true then
      .error (lengthRequired
        "mutating object and registry import requests require Content-Length")
    else .ok 0

def maxBodyBytes (limits : RequestLimits) : Option ℕ :=
  if (head.objectPut || head.objectCompose || head.s3Request) = true then none
  else if head.method = "POST".toList ∧ head.path = "/api/operator/run".toList then
    some limits.operatorConsoleRequestBytes.get
  else if head.method = "POST".toList ∧ head.route = "/api/fleet/join".toList then
    some limits.fleetJoinRequestBytes.get
  else if head.registryImport = true then some limits.registryImportBytes.get
  else some limits.bodyBytes.get

def bodyLength (limits : RequestLimits) : Except Refusal ℕ := do
  let length ← head.contentLength
  let methodText := String.ofList head.method
  let routeText := String.ofList head.route
  match head.maxBodyBytes limits with
  | none => return length
  | some max =>
    if max < length then
      throw (contentTooLarge
        (s!"{methodText} {routeText} declares a {length}-byte body; this route accepts at " ++
          s!"most {max} bytes"))
    else return length

end Head

/-! ## Requests -/

structure Received extends Request where
  version : Text

def Head.received (head : Head) (body : Bytes) : Received where
  method := head.method
  path := head.path
  headers := head.headers
  body := body
  line := head.line.imp fun _ h => ⟨head.version, h⟩
  fields := head.fields
  version := head.version

inductive Answer where
  | request (received : Received)
  | ended (ended : Ended)

/-- The space reserved for a body that starts `start` bytes into the request, and
what its route's limits admit. -/
structure Reservation where
  start : ℕ
  space : ℕ
  bound : Option ℕ
deriving DecidableEq

/-- What one call answered, what it carries to the next, whether it wrote the
interim answer, and what it reserved. -/
structure Read where
  answer : Answer
  carry : Bytes
  socket : Socket
  interim : Bool
  reserved : Option Reservation

def shortBody (head : Head) (ending : Option String) (count length : ℕ) : ReadError :=
  let methodText := String.ofList head.method
  let routeText := String.ofList head.route
  match ending with
  | some error => .socket error
  | none => .unexpectedEof
      (s!"{methodText} {routeText}: the client closed after {count} of the {length} body " ++
        "bytes its Content-Length declares")

/-- Anything beyond this request's body belongs to the next one. -/
def carried (buf : Bytes) (consumed : ℕ) : Option Bytes :=
  if consumed < buf.length then slice buf consumed buf.length else some []

/-- The body of a head that was found, first out of the buffer it was found in. -/
def readBody (limits : RequestLimits) (head : Head) (buf : Bytes) (bodyStart length : ℕ)
    (socket : Socket) : Option Read := do
  let available := min (buf.length - bodyStart) length
  withCapacity length
  let reserved := some ⟨bodyStart, length, head.maxBodyBytes limits⟩
  let stop ← checkedAdd bodyStart available
  let start ← slice buf bodyStart stop
  let missing ← checkedSub length start.length
  let interim := head.expectsContinue && 0 < missing
  let (got, pieces) := Cuts.receive socket.pieces missing
  let left : Socket := ⟨pieces, socket.ending⟩
  let body := start ++ got
  if body.length < length then
    let error := shortBody head socket.ending body.length length
    return ⟨.ended (.failed error), [], left, interim, reserved⟩
  else
    let carry ← carried buf (min (bodyStart + length) usizeMax)
    return ⟨.request (head.received body), carry, left, interim, reserved⟩

def readRequest (limits : RequestLimits) (carry : Bytes) (socket : Socket) : Option Read := do
  let (outcome, pieces) ← readHead limits.headBytes.get socket.ending carry socket.pieces
  let left : Socket := ⟨pieces, socket.ending⟩
  match outcome with
  | .ended ended => return ⟨.ended ended, [], left, false, none⟩
  | .found buf position =>
    let raw ← slice buf 0 position
    match parseHead raw with
    | .error refusal => return ⟨.ended (.failed (.refused refusal)), [], left, false, none⟩
    | .ok head =>
      let bodyStart ← checkedAdd position headEnd.length
      match head.bodyLength limits with
      | .error refusal => return ⟨.ended (.failed (.refused refusal)), [], left, false, none⟩
      | .ok length => readBody limits head buf bodyStart length left

end Stado.Http
