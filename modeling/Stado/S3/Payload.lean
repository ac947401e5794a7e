import Stado.Http.Reading
import Stado.Library.Chains
import Stado.S3.Signers

/-!
# The bytes one signed write carries

An aws-chunked body unframed by byte offsets, each chunk signature and the
trailer signature verified, and what the request states of the data checked.
Every index of the body is checked: `none` is where it panics.
-/

namespace Stado.S3.Listener

open Sigv4 Option
open Http (slice checkedAdd utf8Error)

namespace Chunked

/-! ## Lines and sizes -/

def lineEnd : Bytes := [13, 10]

def malformed (message : String) : S3Error := ⟨400, "IncompleteBody", message⟩

def forged (message : String) : S3Error := ⟨403, "SignatureDoesNotMatch", message⟩

def line (body : Bytes) (start : ℕ) : Option (Except S3Error (Text × ℕ)) := do
  let rest ← slice body (min start body.length) body.length
  match Cuts.find lineEnd rest with
  | none =>
    return .error (malformed s!"the aws-chunked body ends at byte {start} inside a line")
  | some stop =>
    let raw ← slice rest 0 stop
    match fromUtf8 raw with
    | none =>
      let error := utf8Error raw
      return .error (malformed s!"the aws-chunked line at byte {start} is not UTF-8: {error}")
    | some text =>
      let ended ← checkedAdd start stop
      let next ← checkedAdd ended lineEnd.length
      return .ok (text, next)

def readHex (value : ℕ) : Text → Except String ℕ
  | [] => .ok value
  | c :: later =>
    match Percent.digitValue c with
    | none => .error "invalid digit found in string"
    | some d =>
      if value * 16 + d < 18446744073709551616 then readHex (value * 16 + d) later
      else .error "number too large to fit in target type"

/-- `usize::from_str_radix(text, 16)`. -/
def parseHex (text : Text) : Except String ℕ :=
  let digits := if text.head? = some '+' then text.drop 1 else text
  if text = [] then .error "cannot parse integer from empty string"
  else if digits = [] then .error "invalid digit found in string"
  else readHex 0 digits

/-- The size and the extension of a chunk's line. -/
def fields (header : Text) : Text × Text := (splitOnce ';' header).getD (header, [])

/-! ## Chunks -/

/-- What a chunk signature signs: the signature before it, and the chunk. -/
def chunkText (hashes : Hashes) (signer : Signer) (previous : Text) (chunk : Bytes) : Text :=
  join '\n' ["AWS4-HMAC-SHA256-PAYLOAD".toList, signer.amzDate, signer.scope.render, previous,
    hexSha256 hashes [], hexSha256 hashes chunk]

def chunkSignature (hashes : Hashes) (signer : Signer) (previous : Text) (chunk : Bytes) : Text :=
  signature hashes signer.key (chunkText hashes signer previous chunk)

def chunkSignatureName : Text := "chunk-signature=".toList

/-- The signature a chunk leaves to the next one, its own verified where the form
is signed. -/
def verifyChunk (hashes : Hashes) (signer : Signer) (signed : Bool) (extension previous : Text)
    (chunk : Bytes) (position : ℕ) : Except S3Error Text :=
  if signed then
    match stripPrefix chunkSignatureName extension with
    | none => .error (forged s!"the chunk at byte {position} carries no chunk-signature")
    | some provided =>
      if chunkSignature hashes signer previous chunk = provided then .ok provided
      else .error (forged
        s!"the signature of the chunk at byte {position} does not match its bytes")
  else .ok previous

/-- Where the chunks are read to, the data so far, and the last signature. -/
structure Progress where
  position : ℕ
  data : Bytes
  previous : Text

inductive ChunkStep where
  | last (progress : Progress)
  | more (progress : Progress)

def readSized (hashes : Hashes) (signer : Signer) (signed : Bool) (body : Bytes)
    (progress : Progress) (extension : Text) (next size : ℕ) :
    Option (Except S3Error ChunkStep) := do
  let whole := body.length
  match (checkedAdd next size).filter fun stop => stop ≤ whole with
  | none =>
    return .error (malformed
      s!"a chunk of {size} bytes at byte {next} runs past the {whole}-byte body")
  | some stop =>
    let chunk ← slice body next stop
    match verifyChunk hashes signer signed extension progress.previous chunk
        progress.position with
    | .error refusal => return .error refusal
    | .ok previous =>
      let data := progress.data ++ chunk
      if chunk = [] then return .ok (.last ⟨next, data, previous⟩)
      else
        let following ← checkedAdd stop lineEnd.length
        if slice body stop following = some lineEnd then
          return .ok (.more ⟨following, data, previous⟩)
        else
          return .error (malformed s!"the chunk ending at byte {stop} is not followed by CRLF")

def readChunk (hashes : Hashes) (signer : Signer) (signed : Bool) (body : Bytes)
    (progress : Progress) : Option (Except S3Error ChunkStep) := do
  let position := progress.position
  match ← line body progress.position with
  | .error refusal => return .error refusal
  | .ok (header, next) =>
    let (sizeText, extension) := fields header
    let shownSize := shown sizeText
    match parseHex (trim sizeText) with
    | .error error =>
      return .error (malformed
        s!"the chunk size {shownSize} at byte {position} is not hexadecimal: {error}")
    | .ok size => readSized hashes signer signed body progress extension next size

/-! ## Trailers -/

abbrev TrailerHeaders := List (Text × Text)

def trailerSignatureName : Text := "x-amz-trailer-signature".toList

/-- Where the trailer is read to, its headers so far, and the signature it states. -/
structure Trailing where
  position : ℕ
  trailers : TrailerHeaders
  signature : Option Text

inductive TrailerStep where
  | last (trailing : Trailing)
  | more (trailing : Trailing)

def trailerField (name value : Text) : Text × Text := ((trim name).map Char.toLower, trim value)

def Trailing.add (trailing : Trailing) (next : ℕ) (field : Text × Text) : Trailing :=
  if field.1 = trailerSignatureName then ⟨next, trailing.trailers, some field.2⟩
  else ⟨next, trailing.trailers ++ [field], trailing.signature⟩

def readTrailer (body : Bytes) (trailing : Trailing) : Option (Except S3Error TrailerStep) := do
  match ← line body trailing.position with
  | .error refusal => return .error refusal
  | .ok (text, next) =>
    let shownText := shown text
    if text = [] then return .ok (.last ⟨next, trailing.trailers, trailing.signature⟩)
    else
      match splitOnce ':' text with
      | none => return .error (malformed s!"the trailing header {shownText} has no ':'")
      | some (name, value) => return .ok (.more (trailing.add next (trailerField name value)))

/-- What a trailer signature signs. -/
def trailerText (hashes : Hashes) (signer : Signer) (previous : Text) (trailers : TrailerHeaders) :
    Text :=
  join '\n' ["AWS4-HMAC-SHA256-TRAILER".toList, signer.amzDate, signer.scope.render, previous,
    hexSha256 hashes (utf8 (trailers.flatMap canonicalHeader))]

def trailerSignature (hashes : Hashes) (signer : Signer) (previous : Text)
    (trailers : TrailerHeaders) : Text :=
  signature hashes signer.key (trailerText hashes signer previous trailers)

/-! ## Reading on -/

theorem slice_some {bytes out : Bytes} {start stop : ℕ} (h : slice bytes start stop = some out) :
    start ≤ stop ∧ stop ≤ bytes.length ∧ out = (bytes.take stop).drop start := by
  unfold slice at h
  split_ifs at h with hrange
  exact ⟨hrange.1, hrange.2, (Option.some.inj h).symm⟩

theorem checkedAdd_some {a b sum : ℕ} (h : checkedAdd a b = some sum) : sum = a + b := by
  unfold checkedAdd at h
  split_ifs at h
  exact (Option.some.inj h).symm

variable {body : Bytes} {signer : Signer} {hashes : Hashes} {signed : Bool}

theorem line_next {start next : ℕ} {text : Text}
    (h : line body start = some (.ok (text, next))) : start < next ∧ next ≤ body.length := by
  unfold line at h
  obtain ⟨rest, hrest, h⟩ := bind_eq_some_iff.mp h
  obtain ⟨-, -, rfl⟩ := slice_some hrest
  rw [List.take_length] at h
  cases hfind : Cuts.find lineEnd (body.drop (min start body.length)) with
  | none =>
    rw [hfind] at h
    cases h
  | some stop =>
    rw [hfind] at h
    obtain ⟨raw, -, h⟩ := bind_eq_some_iff.mp h
    cases htext : fromUtf8 raw with
    | none =>
      rw [htext] at h
      cases h
    | some read =>
      rw [htext] at h
      obtain ⟨ended, hended, h⟩ := bind_eq_some_iff.mp h
      obtain ⟨next', hnext, h⟩ := bind_eq_some_iff.mp h
      have hle := Cuts.find_eq_some_le hfind
      have heq := (Prod.mk.inj (Except.ok.inj (Option.some.inj h))).2
      rw [checkedAdd_some hended] at hnext
      have hsum := checkedAdd_some hnext
      have hlength : lineEnd.length = 2 := rfl
      rw [List.length_drop] at hle
      omega

theorem readSized_more {progress following : Progress} {extension : Text} {next size : ℕ}
    (h : readSized hashes signer signed body progress extension next size =
      some (.ok (.more following))) :
    next < following.position ∧ following.position ≤ body.length := by
  unfold readSized at h
  dsimp only at h
  cases hstop : (checkedAdd next size).filter fun stop => stop ≤ body.length with
  | none =>
    rw [hstop] at h
    cases h
  | some stop =>
    rw [hstop] at h
    obtain ⟨chunk, hchunk, h⟩ := bind_eq_some_iff.mp h
    obtain ⟨hstart, -, -⟩ := slice_some hchunk
    cases hverified : verifyChunk hashes signer signed extension progress.previous chunk
        progress.position with
    | error refusal =>
      rw [hverified] at h
      cases h
    | ok previous =>
      rw [hverified] at h
      dsimp only at h
      split_ifs at h with hempty
      · cases h
      · obtain ⟨ended, hended, h⟩ := bind_eq_some_iff.mp h
        split_ifs at h with hcrlf
        · obtain ⟨-, hle, -⟩ := slice_some hcrlf
          have hsum := checkedAdd_some hended
          have hlength : lineEnd.length = 2 := rfl
          obtain rfl := ChunkStep.more.inj (Except.ok.inj (Option.some.inj h))
          exact ⟨by dsimp only; omega, hle⟩
        · cases h

theorem readChunk_more {progress next : Progress}
    (h : readChunk hashes signer signed body progress = some (.ok (.more next))) :
    progress.position < next.position ∧ next.position ≤ body.length := by
  unfold readChunk at h
  obtain ⟨read, hline, h⟩ := bind_eq_some_iff.mp h
  cases read with
  | error refusal => cases h
  | ok header =>
    obtain ⟨header, start⟩ := header
    obtain ⟨hlater, -⟩ := line_next hline
    dsimp only at h
    cases hsize : parseHex (trim (fields header).1) with
    | error why =>
      rw [hsize] at h
      cases h
    | ok size =>
      rw [hsize] at h
      obtain ⟨hmore, hheld⟩ := readSized_more h
      exact ⟨hlater.trans hmore, hheld⟩

theorem readTrailer_more {trailing next : Trailing}
    (h : readTrailer body trailing = some (.ok (.more next))) :
    trailing.position < next.position ∧ next.position ≤ body.length := by
  unfold readTrailer at h
  obtain ⟨read, hline, h⟩ := bind_eq_some_iff.mp h
  cases read with
  | error refusal => cases h
  | ok header =>
    obtain ⟨text, start⟩ := header
    have hnext := line_next hline
    dsimp only at h
    split_ifs at h with hempty
    · cases h
    · cases hfield : splitOnce ':' text with
      | none =>
        rw [hfield] at h
        cases h
      | some field =>
        rw [hfield] at h
        obtain rfl := TrailerStep.more.inj (Except.ok.inj (Option.some.inj h))
        unfold Trailing.add
        split_ifs <;> exact hnext

def readChunks (hashes : Hashes) (signer : Signer) (signed : Bool) (body : Bytes)
    (progress : Progress) : Option (Except S3Error Progress) :=
  match _hread : readChunk hashes signer signed body progress with
  | none => none
  | some (.error refusal) => some (.error refusal)
  | some (.ok (.last progress)) => some (.ok progress)
  | some (.ok (.more next)) => readChunks hashes signer signed body next
termination_by body.length - progress.position
decreasing_by
  have hmore := readChunk_more _hread
  omega

/-- Read trailer lines up to the empty one. -/
def readTrailers (body : Bytes) (trailing : Trailing) : Option (Except S3Error Trailing) :=
  match _hread : readTrailer body trailing with
  | none => none
  | some (.error refusal) => some (.error refusal)
  | some (.ok (.last trailing)) => some (.ok trailing)
  | some (.ok (.more next)) => readTrailers body next
termination_by body.length - trailing.position
decreasing_by
  have hmore := readTrailer_more _hread
  omega

def verifyTrailer (hashes : Hashes) (signer : Signer) (signed : Bool) (previous : Text)
    (trailing : Trailing) : Except S3Error Unit :=
  if signed then
    match trailing.signature with
    | none => .error (forged "the signed trailer carries no x-amz-trailer-signature")
    | some provided =>
      if trailerSignature hashes signer previous trailing.trailers = provided then .ok ()
      else .error (forged "the trailer signature does not match the trailing headers")
  else .ok ()

def dechunk (hashes : Hashes) (body : Bytes) (signer : Signer) (signed trailer : Bool) :
    Option (Except S3Error (Bytes × TrailerHeaders)) := do
  match ← readChunks hashes signer signed body ⟨0, [], signer.seed⟩ with
  | .error refusal => return .error refusal
  | .ok progress =>
    let position := progress.position
    if trailer = false then
      if slice body position body.length = some lineEnd then return .ok (progress.data, [])
      else return .error (malformed
        s!"the aws-chunked body continues past its final chunk at byte {position}")
    else
      match ← readTrailers body ⟨position, [], none⟩ with
      | .error refusal => return .error refusal
      | .ok trailing =>
        let ended := trailing.position
        if ended ≠ body.length then
          return .error (malformed
            s!"the aws-chunked body continues past its trailer at byte {ended}")
        else
          match verifyTrailer hashes signer signed progress.previous trailing with
          | .error refusal => return .error refusal
          | .ok () => return .ok (progress.data, trailing.trailers)

end Chunked

/-! ## What a request states of its body -/

def checksumPrefix : Text := "x-amz-checksum-".toList

def statedDigest (decodes : Text → Option Bytes) (field : Text × Text) : Option (Text × Text) :=
  match stripPrefix checksumPrefix field.1 with
  | some algorithm =>
    match decodes (trim field.2) with
    | some bytes => if bytes = [] then none else some (algorithm, field.2)
    | none => none
  | none => if field.1 = "content-md5".toList then some field else none

def statedDigests (decodes : Text → Option Bytes) (request : Request)
    (trailers : Chunked.TrailerHeaders) : List (Text × Text) :=
  (request.headers ++ trailers).filterMap (statedDigest decodes)

def checkDigest (digest : Text → Bytes → Option Text) (data : Bytes) (stated : Text × Text) :
    Except S3Error Unit :=
  let algorithmText := String.ofList stated.1
  let statedText := String.ofList (trim stated.2)
  match digest stated.1 data with
  | none => .error ⟨400, "InvalidRequest",
      s!"x-amz-checksum-{algorithmText} names an algorithm this endpoint does not compute; " ++
        "state crc32, crc32c, crc64nvme, sha1, sha256 or Content-MD5"⟩
  | some computed =>
    let computedText := String.ofList computed
    if computed = trim stated.2 then .ok ()
    else .error ⟨400, "BadDigest",
      s!"the {algorithmText} you stated is {statedText}; the received body computes " ++
        computedText⟩

def checkDecodedLength (request : Request) (data : Bytes) : Except S3Error Unit :=
  match request.header "x-amz-decoded-content-length".toList with
  | none => .ok ()
  | some declared =>
    let declaredText := shown declared
    let count := data.length
    match parseUsize declared with
    | .error error => .error (Chunked.malformed
        s!"x-amz-decoded-content-length {declaredText} is not a byte count: {error}")
    | .ok length =>
      if length = data.length then .ok ()
      else .error (Chunked.malformed
        s!"x-amz-decoded-content-length is {length} and the body unframes to {count} bytes")

def checkAnnounced (request : Request) (trailers : Chunked.TrailerHeaders) : Except S3Error Unit :=
  match request.header "x-amz-trailer".toList with
  | none => .ok ()
  | some announced =>
    Checks.each (((announced.splitOn ',').map trim).filter fun name => name ≠ []) fun name =>
      let nameText := String.ofList name
      Checks.require (trailers.any (fun trailer =>
          trailer.1.map Char.toLower = name.map Char.toLower) = true)
        (Chunked.malformed
          s!"x-amz-trailer announces {nameText} and the body carries no such trailer")

def unframe (hashes : Hashes) (request : Request) (signer : Signer) :
    Option (Except S3Error (Bytes × Chunked.TrailerHeaders)) :=
  match signer.payload with
  | .sha256 declared =>
    let computed := hexSha256 hashes request.body
    let computedText := String.ofList computed
    let declaredText := String.ofList declared
    if computed = declared then some (.ok (request.body, []))
    else some (.error ⟨400, "XAmzContentSHA256Mismatch",
      s!"the body's SHA-256 is {computedText}, the signature covers {declaredText}: the " ++
        "body changed after it was signed"⟩)
  | .unsigned => some (.ok (request.body, []))
  | .streaming signed trailer => Chunked.dechunk hashes request.body signer signed trailer

/-- The body of one signed write, unframed and proved. -/
def body (hashes : Hashes) (decodes : Text → Option Bytes) (digest : Text → Bytes → Option Text)
    (request : Request) (signer : Signer) : Option (Except S3Error Bytes) :=
  (unframe hashes request signer).map fun unframed => do
    let (data, trailers) ← unframed
    checkDecodedLength request data
    checkAnnounced request trailers
    Checks.each (statedDigests decodes request trailers) (checkDigest digest data)
    return data

end Stado.S3.Listener
