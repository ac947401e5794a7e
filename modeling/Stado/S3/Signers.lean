import Stado.S3.Decoding

/-!
# Who signed one S3 request

What a request claims about its signature, read from its `Authorization` header
or from a presigned URL's query, and the verification of that claim against the
secret of the namespace it names.
-/

namespace Stado.S3.Listener

open Sigv4
open Directory (isDigit)

/-! ## Namespaces and their policies -/

inductive Action where
  | get | stat | list | put | delete
deriving DecidableEq

/-- One exact object-key boundary and the actions granted inside it. -/
structure ObjectPrefixPolicy where
  boundary : Text
  actions : List Action
deriving DecidableEq

def ObjectPrefixPolicy.containsKey (policy : ObjectPrefixPolicy) (key : Text) : Bool :=
  if policy.boundary = [] then true
  else if policy.boundary.getLast? = some '/' then policy.boundary.isPrefixOf key
  else key == policy.boundary

/-- One product credential and its key and action boundaries. -/
structure ObjectApiNamespace where
  item : Text
  prefixPolicies : List ObjectPrefixPolicy
deriving DecidableEq

def ObjectApiNamespace.allowsObjectAction (entry : ObjectApiNamespace) (key : Text)
    (action : Action) : Bool :=
  entry.prefixPolicies.any fun policy => policy.actions.contains action && policy.containsKey key

/-- What one listener is configured with: the namespaces it declares, the secret
of each, whether a reverse proxy is trusted, and whether object authorization is
available; and the code it calls for hashes, dates and HTTP dates. -/
structure Listener where
  hashes : Hashes
  calendar : Calendar
  httpDate : Text → Option ℕ
  namespaces : Except String (Text → Option ObjectApiNamespace)
  objectToken : Text → Text → Except String Text
  reverseProxyEnabled : Bool
  boundaryAvailable : Except String Unit

/-! ## Claims -/

/-- How the body of a request is bound to its signature. -/
inductive Payload where
  | sha256 (hex : Text)
  | unsigned
  | streaming (signed trailer : Bool)
deriving DecidableEq

/-- What one request claims before its secret is consulted. -/
structure Claim where
  credential : Text
  amzDate : Text
  signed : Text
  provided : Text
  canonicalQuery : Text
  payload : Payload
  payloadHash : Text

def denied (code message : String) : S3Error := ⟨403, code, message⟩

/-- `Duration::num_seconds` of nanoseconds. -/
def numSeconds (duration : ℤ) : ℤ := duration.tdiv 1000000000

def parseDate (calendar : Calendar) (raw : Text) (what : String) : Except S3Error ℤ :=
  let rawText := shown raw
  (calendar.parse raw).mapError fun error => denied "AccessDenied"
    s!"{what} {rawText} is not an ISO 8601 basic UTC time (YYYYMMDDTHHMMSSZ): {error}"

def declaredPayload (value : Text) : Except S3Error Payload :=
  let valueText := shown value
  if value = unsignedPayload then .ok .unsigned
  else if value = "STREAMING-UNSIGNED-PAYLOAD-TRAILER".toList then .ok (.streaming false true)
  else if value = "STREAMING-AWS4-HMAC-SHA256-PAYLOAD".toList then .ok (.streaming true false)
  else if value = "STREAMING-AWS4-HMAC-SHA256-PAYLOAD-TRAILER".toList then
    .ok (.streaming true true)
  else if value.length = 64 ∧ value.all Directory.isHexDigit = true then
    .ok (.sha256 (value.map Char.toLower))
  else .error (.notImplemented
    (s!"x-amz-content-sha256 {valueText} is a payload form this endpoint does not verify " ++
      "(SigV4a and ECDSA streaming are not served); sign with AWS4-HMAC-SHA256"))

/-- One `name=value` parameter after an `Authorization` header's algorithm. -/
def authorizationParameter (parameters name : Text) : Except S3Error Text :=
  let nameText := String.ofList name
  match ((parameters.splitOn ',').map trim).findSome? fun pair =>
      (stripPrefix name pair).bind (stripPrefix ['=']) with
  | some value => .ok value
  | none => .error (denied "AccessDenied" s!"the Authorization header names no {nameText}")

def queryValue (query : List (Text × Text)) (name : Text) : Except S3Error Text :=
  let nameText := String.ofList name
  match query.find? fun pair => pair.1 = name with
  | some pair => .ok pair.2
  | none => .error (denied "AccessDenied" s!"the presigned URL names no {nameText}")

/-- A field that must be there. -/
def required {α : Type} (found : Option α) (refusal : S3Error) : Except S3Error α :=
  match found with
  | some a => .ok a
  | none => .error refusal

def ensure (condition : Prop) [Decidable condition] (refusal : S3Error) : Except S3Error Unit :=
  if condition then .ok () else .error refusal

def headerClaim (calendar : Calendar) (request : Request) (header : Text)
    (query : List (Text × Text)) (now : ℤ) : Except S3Error Claim := do
  let parameters ← required ((stripPrefix algorithm header).bind (stripPrefix [' ']))
    ⟨400, "InvalidRequest", "the Authorization header is not AWS4-HMAC-SHA256; " ++
      "signature version 2 and SigV4a are not served"⟩
  let amzDate ← required (request.header "x-amz-date".toList)
    (denied "AccessDenied" "a header-signed request must carry x-amz-date")
  let dated ← parseDate calendar amzDate "x-amz-date"
  let dateText := String.ofList amzDate
  ensure ((numSeconds (now - dated)).natAbs ≤ maxClockSkewSeconds)
    (denied "RequestTimeTooSkewed"
      (s!"x-amz-date {dateText} is more than 900 seconds from this server's clock; " ++
        "correct the client's clock"))
  let payloadHash ← required (request.header "x-amz-content-sha256".toList)
    ⟨400, "InvalidRequest", "a header-signed request must state x-amz-content-sha256: the " ++
      "body's SHA-256, UNSIGNED-PAYLOAD, or one of the STREAMING- forms"⟩
  let credential ← authorizationParameter parameters "Credential".toList
  let signed ← authorizationParameter parameters "SignedHeaders".toList
  let provided ← authorizationParameter parameters "Signature".toList
  let payload ← declaredPayload payloadHash
  return ⟨credential, amzDate, signed, provided, canonicalQuery query, payload, payloadHash⟩

/-- `str::parse::<u64>`. -/
def parseU64 (text : Text) : Option ℕ :=
  let digits := if text.head? = some '+' then text.drop 1 else text
  if digits = [] ∨ digits.all isDigit = false then none
  else
    let value := Nat.ofDigitChars 10 digits 0
    if value < 18446744073709551616 then some value else none

def signatureParameter : Text := "X-Amz-Signature".toList

/-- The claim of a presigned URL: its algorithm, its date and lifetime, and the
canonical query of every parameter but its signature. -/
def presignedClaim (calendar : Calendar) (query : List (Text × Text)) (now : ℤ) :
    Except S3Error Claim := do
  let named ← queryValue query "X-Amz-Algorithm".toList
  let namedText := shown named
  ensure (named = algorithm)
    (denied "AccessDenied" s!"X-Amz-Algorithm {namedText} is not AWS4-HMAC-SHA256")
  let amzDate ← queryValue query "X-Amz-Date".toList
  let dateText := String.ofList amzDate
  let dated ← parseDate calendar amzDate "X-Amz-Date"
  let expires ← queryValue query "X-Amz-Expires".toList
  let expiresText := shown expires
  let invalidLifetime := denied "AuthorizationQueryParametersError"
    s!"X-Amz-Expires {expiresText} must be a whole number of seconds from 1 to 604800"
  let lifetime ← required (parseU64 expires) invalidLifetime
  ensure (1 ≤ lifetime ∧ lifetime ≤ maxPresignedSeconds) invalidLifetime
  ensure (numSeconds (dated - now) ≤ maxClockSkewSeconds)
    (denied "AccessDenied" s!"the presigned URL is dated {dateText}, in this server's future")
  ensure (numSeconds (now - dated) ≤ lifetime)
    (denied "AccessDenied"
      (s!"Request has expired: the presigned URL dated {dateText} lived {lifetime} seconds"))
  let credential ← queryValue query "X-Amz-Credential".toList
  let signed ← queryValue query "X-Amz-SignedHeaders".toList
  let provided ← queryValue query signatureParameter
  let unsigned := query.filter fun pair => pair.1 ≠ signatureParameter
  return ⟨credential, amzDate, signed, provided, canonicalQuery unsigned, .unsigned,
    unsignedPayload⟩

/-! ## Verification -/

/-- The verified signer of one request. -/
structure Signer where
  nameSpace : Text
  policy : ObjectApiNamespace
  key : Bytes
  scope : Scope
  amzDate : Text
  seed : Text
  payload : Payload

/-- The canonical headers of these names, each with every occurrence the request
carries. -/
def canonicalHeaders (request : Request) : List Text → Except S3Error (List (Text × Text))
  | [] => .ok []
  | name :: later => do
      let nameText := shown name
      let occurrences := request.occurrences name
      ensure (occurrences ≠ [])
        (denied "AccessDenied" s!"the signed header {nameText} is not on the request")
      let headers ← canonicalHeaders request later
      return (name, canonicalHeaderValue occurrences) :: headers

def signedHeaders (request : Request) (signed : Text) : Except S3Error (List (Text × Text)) := do
  let names := signed.splitOn ';'
  let signedText := shown signed
  ensure ("host".toList ∈ names)
    (denied "AccessDenied" s!"SignedHeaders {signedText} must include host")
  canonicalHeaders request names

def verifyClaim (listener : Listener) (request : Request) (rawPath : Text) (claim : Claim) :
    Except S3Error Signer := do
  let (accessKey, rawScope) ← required (splitOnce '/' claim.credential)
    (denied "AccessDenied"
      "the credential is not <access-key-id>/<date>/<region>/s3/aws4_request")
  let scope ← (Scope.parse rawScope).mapError (denied "AccessDenied")
  let scopeText := String.ofList scope.render
  let dateText := String.ofList claim.amzDate
  ensure (scope.service = service ∧ scope.date <+: claim.amzDate)
    (denied "AccessDenied"
      (s!"the credential scope {scopeText} must name service s3 and the request's own date " ++
        s!"{dateText}"))
  let namespaces ← listener.namespaces.mapError fun refusals =>
    ⟨503, "ServiceUnavailable", s!"object_api.namespaces is refused: {refusals}"⟩
  let accessKeyText := shown accessKey
  let policy ← required (namespaces accessKey)
    (denied "InvalidAccessKeyId"
      (s!"the access key id {accessKeyText} names no namespace object_api.namespaces declares; " ++
        "the access key id is the namespace"))
  let plainKeyText := String.ofList accessKey
  let secret ← (listener.objectToken accessKey policy.item).mapError fun cause =>
    ⟨503, "ServiceUnavailable",
      s!"the secret of namespace {plainKeyText} could not be read: {cause}"⟩
  let headers ← signedHeaders request claim.signed
  let canonical := canonicalRequest request.method rawPath claim.canonicalQuery headers
    claim.signed claim.payloadHash
  let key := signingKey listener.hashes secret scope
  let expected := signature listener.hashes key
    (stringToSign listener.hashes claim.amzDate scope canonical)
  ensure (expected = claim.provided)
    (denied "SignatureDoesNotMatch"
      (s!"the request signature does not match the one namespace {plainKeyText}'s secret " ++
        "computes; sign with the namespace's current object API bearer as the secret access key"))
  return ⟨accessKey, policy, key, scope, claim.amzDate, claim.provided, claim.payload⟩

def claimOf (listener : Listener) (request : Request) (query : List (Text × Text)) (now : ℤ) :
    Except S3Error Claim :=
  let presigned := query.any fun pair => pair.1 = signatureParameter
  match request.header "authorization".toList with
  | some header =>
    if presigned then .error ⟨400, "InvalidArgument",
      "a request is signed in its Authorization header or in its URL, not both"⟩
    else headerClaim listener.calendar request header query now
  | none =>
    if presigned then presignedClaim listener.calendar query now
    else .error (denied "AccessDenied"
      ("the S3 endpoint serves no anonymous request: sign it with AWS Signature Version 4, " ++
        "the namespace as the access key id and its object API bearer as the secret access key"))

def s3Signer (listener : Listener) (now : ℤ) (request : Request) (rawPath : Text)
    (query : List (Text × Text)) : Except S3Error Signer := do
  let claim ← claimOf listener request query now
  verifyClaim listener request rawPath claim

end Stado.S3.Listener
