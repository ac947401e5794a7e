import Stado.ObjectApi.Store

/-!
# Writing one object

`PUT /api/object` and S3's PutObject as the store calls each of them makes.
Bytes and metadata are written by separate calls. An error of a call ends the
route, and is answered.
-/

namespace Stado.ObjectApi

open Store

open S3 (ObjectRef)
open Sigv4 (Text Bytes)
open Directory (isControl)
open Trials (Trial)
open Trials.Trial (tries stop ofExcept)

/-! ## Metadata -/

/-- The fields every object has. -/
def metadata (object : ObjectRef) (contentType : Text) : Metadata :=
  ((AList.insert "stado-uri".toList object.display ∅).insert
    "stado-namespace".toList object.nameSpace).insert "content-type".toList contentType

def refusesField (merged : Metadata) (field : Sigma fun _ : Text => Text) : Bool :=
  !"stado-".toList.isPrefixOf field.1 || (merged.lookup field.1).isSome || field.2.isEmpty ||
    field.1.any isControl || field.2.any isControl

def addField (merged : Metadata) (field : Sigma fun _ : Text => Text) : Except Text Metadata :=
  if refusesField merged field then
    .error "custom object metadata must use unique non-empty stado-* fields".toList
  else .ok (merged.insert field.1 field.2)

def mergedObjectMetadata (object : ObjectRef) (contentType : Text) (extra : Metadata) :
    Except Text Metadata :=
  extra.entries.foldlM addField (metadata object contentType)

def octetStream : Text := "application/octet-stream".toList

/-! ## Requests and answers -/

abbrev Headers := List (Text × Text)

def header (headers : Headers) (name : Text) : Option Text :=
  (headers.find? fun field => field.1 = name).map Prod.snd

/-- A body sent without a media type is read as bytes of no stated type. -/
def declaredType (headers : Headers) : Text :=
  (header headers "content-type".toList).getD octetStream

/-- A JSON answer: its status and its fields. -/
structure Response where
  status : ℕ
  fields : List (Text × Text)
deriving DecidableEq

def Response.succeeded (response : Response) : Bool :=
  200 ≤ response.status && response.status < 300

def storageErrorStatus : StorageError → ℕ
  | .wouldBlock _ => 503
  | _ => 500

def storageErrorResponse (error : StorageError) : Response :=
  ⟨storageErrorStatus error, [("error".toList, error.text)]⟩

/-- A dashboard error that is not the store's. -/
def otherErrorResponse (reason : Text) : Response := ⟨500, [("error".toList, reason)]⟩

def badRequest (reason : Text) : Response := ⟨400, [("error".toList, reason)]⟩

def verifyLanded (object : ObjectRef) (metadata : Metadata) (landed : List BlobInfo) :
    Except Text Unit :=
  match landed.find? fun blob => blob.name = object.storagePath with
  | none => .error ("object metadata verification could not find ".toList ++ object.display)
  | some blob =>
    if metadata.entries.any fun field =>
        field.2 ≠ [] && blob.metadata.lookup field.1 ≠ some field.2 then
      .error ("object metadata verification failed for ".toList ++ object.display)
    else .ok ()

/-! ## The object API's write -/

/-- The parameters of a write. -/
structure WriteQuery where
  ifAbsent : Option Text
  ifVersion : Option Text
  metadataOnly : Option Text

namespace WriteQuery

def createOnly (query : WriteQuery) : Bool := query.ifAbsent = some "true".toList

def onlyMetadata (query : WriteQuery) : Bool := query.metadataOnly = some "true".toList

def expected (query : WriteQuery) : Option Text := query.ifVersion.filter fun value => value ≠ []

/-- Asking for two modes at once names no single write. -/
def contradictory (query : WriteQuery) : Bool :=
  query.createOnly && query.expected.isSome || query.createOnly && query.onlyMetadata ||
    query.expected.isSome && query.onlyMetadata

end WriteQuery

structure PutRequest where
  query : Except Response WriteQuery
  headers : Headers
  body : Bytes

abbrev Route := Trial Disk StorageError Response

section Put

variable (readings : Readings) (object : ObjectRef) (request : PutRequest)

/-- The object's name in an answer. -/
def uriField : Text × Text := ("uri".toList, object.display)

def putMetadata : Route Response := do
  let found ← tries storageErrorResponse (blobExists object.storagePath)
  if found = false then
    stop ⟨404, [("state".toList, "absent".toList), uriField object]⟩
  else do
    let metadata ← ofExcept ((readings.jsonMap request.body).mapError fun error =>
      badRequest ("invalid metadata: ".toList ++ error))
    tries storageErrorResponse (setMetadata object.storagePath metadata)
    return ⟨200, [("state".toList, "metadata-updated".toList), uriField object]⟩

def swapResponse : StorageError → Response
  | .storageConflict _ => ⟨409, [("error".toList, "object version changed".toList), uriField object]⟩
  | .notFound _ => ⟨404, [("state".toList, "absent".toList), uriField object]⟩
  | error => storageErrorResponse error

def putSwap (expected : Text) : Route Response := do
  ofExcept (match readings.utf8Error request.body with
    | none => .ok ()
    | some error =>
      .error (badRequest ("conditional object writes require UTF-8: ".toList ++ error)))
  let version ← tries (swapResponse object)
    (compareAndSwapText readings object.storagePath expected request.body)
  return ⟨200, [("state".toList, "stored".toList), uriField object, ("version".toList, version)]⟩

/-- The custom metadata of a write. -/
def extraMetadata : Except Response Metadata :=
  match header request.headers "x-stado-object-metadata".toList with
  | none => .ok ∅
  | some raw => (readings.jsonMap (Sigv4.utf8 raw)).mapError fun error =>
    badRequest ("invalid object metadata: ".toList ++ error)

/-- The metadata a write lands, or why it is refused. -/
def requestedMetadata : Except Response Metadata := do
  let extra ← extraMetadata readings request
  (mergedObjectMetadata object (declaredType request.headers) extra).mapError badRequest

/-- Metadata first merged onto the object, then read back. -/
def landMetadata (metadata : Metadata) : Route Response := do
  tries storageErrorResponse (setMetadata object.storagePath metadata)
  let landed ← tries storageErrorResponse (listBlobsWithMeta object.storagePath)
  ofExcept ((verifyLanded object metadata landed).mapError otherErrorResponse)
  return ⟨200, [("state".toList, "stored".toList), uriField object,
    ("content_type".toList, declaredType request.headers)]⟩

def putCreate (metadata : Metadata) : Route Response := do
  let created ← tries storageErrorResponse
    (uploadFileIfAbsent object.storagePath request.body)
  if created = false then
    stop ⟨409, [("error".toList, "object exists".toList), uriField object]⟩
  else landMetadata object request metadata

def putReplace (metadata : Metadata) : Route Response := do
  tries storageErrorResponse (uploadBytes object.storagePath request.body)
  landMetadata object request metadata

def putObject : Route Response := do
  let query ← ofExcept request.query
  if query.contradictory then
    stop (badRequest "if_absent, if_version, and metadata_only are mutually exclusive".toList)
  else if query.onlyMetadata then putMetadata readings object request
  else
    match query.expected with
    | some expected => putSwap readings object request expected
    | none => do
        let metadata ← ofExcept (requestedMetadata readings object request)
        if query.createOnly then putCreate object request metadata
        else putReplace object request metadata

/-- An authorized write, under the store's fence. -/
def doPut : Route Response := do
  tries storageErrorResponse storageWriteGuard
  putObject readings object request

end Put

/-! ## S3's write -/

structure S3Error where
  status : ℕ
  code : String
  message : Text
deriving DecidableEq

namespace S3Error

def invalid (message : Text) : S3Error := ⟨400, "InvalidArgument", message⟩
def notImplemented (message : Text) : S3Error := ⟨501, "NotImplemented", message⟩
def preconditionFailed (message : Text) : S3Error := ⟨412, "PreconditionFailed", message⟩

def storage : StorageError → S3Error
  | .wouldBlock reason => ⟨503, "SlowDown", reason⟩
  | error => ⟨500, "InternalError", error.text⟩

end S3Error

def wireMeta : Text := "x-amz-meta-".toList
def storedMeta : Text := "stado-s3-meta-".toList

def addUserField (user : Metadata) (field : Text × Text) : Metadata :=
  match Sigv4.stripPrefix wireMeta field.1 with
  | none => user
  | some name => user.insert (storedMeta ++ name) field.2

/-- A request's `x-amz-meta-*` headers as stored metadata fields. -/
def userMetadata (headers : Headers) : Metadata := headers.foldl addUserField ∅

def writeMetadata (object : ObjectRef) (contentType : Text) (user : Metadata) :
    Except S3Error Metadata :=
  (mergedObjectMetadata object contentType user).mapError fun refusal =>
    .invalid (refusal ++
      ": every x-amz-meta-* header needs a non-empty value without control characters".toList)

/-- A PutObject: what its signer's grants, its path and its body's framing come
to, and its headers. -/
structure S3PutRequest where
  admitted : Except S3Error (ObjectRef × Bytes)
  headers : Headers

/-- The write that `If-None-Match` and `If-Match` ask for. -/
inductive PutMode where
  | unconditional
  | createOnly
  | ifMatch (expected : Text)
deriving DecidableEq

def isQuote (c : Char) : Bool := c = '"'

def putMode (headers : Headers) : Except S3Error PutMode :=
  match header headers "if-none-match".toList, header headers "if-match".toList with
  | some _, some _ =>
    .error (.invalid "If-None-Match and If-Match name two different writes; send one".toList)
  | some other, none =>
    if other = "*".toList then .ok .createOnly
    else .error (.notImplemented ("If-None-Match ".toList ++ other ++
      " on a write is not served; only * (create only) is".toList))
  | none, some expected => .ok (.ifMatch (Sigv4.trimMatches isQuote (Sigv4.trim expected)))
  | none, none => .ok .unconditional

abbrev S3Route := Trial Disk StorageError (Except S3Error Text)

def refuse {α : Type} (error : S3Error) : S3Route α := stop (.error error)

def s3Tries {α : Type} (call : Store.StoreCall α) : S3Route α :=
  tries (fun error => .error (.storage error)) call

section S3Put

variable (readings : Readings)

/-- The ETag of an object just written. -/
def s3Etag (path : Text) (data : Bytes) : S3Route Text :=
  if (readings.utf8Error data).isSome then pure (readings.sha256 data)
  else do
    let versioned ← s3Tries (Store.readTextVersioned readings path)
    match versioned with
    | some version => pure version
    | none => refuse ⟨409, "OperationAborted",
        path ++ " was removed while it was read; repeat the request".toList⟩

def s3Create (object : ObjectRef) (data : Bytes) : S3Route (Option Text) := do
  let created ← s3Tries (Store.uploadFileIfAbsent object.storagePath data)
  if created = false then
    refuse (.preconditionFailed (object.display ++
      " exists, and the write was create-only (If-None-Match: *)".toList))
  else pure none

def s3SwapError (object : ObjectRef) (expected : Text) : StorageError → S3Error
  | .storageConflict _ =>
    .preconditionFailed (object.display ++ " is no longer at ETag ".toList ++ expected)
  | .notFound _ =>
    ⟨404, "NoSuchKey", object.display ++ " is absent, so it is at no ETag".toList⟩
  | error => .storage error

def s3Swap (object : ObjectRef) (data : Bytes) (expected : Text) : S3Route (Option Text) :=
  if (readings.utf8Error data).isSome then
    refuse (.notImplemented
      "a conditional replace of a binary object is not served: the store versions text objects only".toList)
  else do
    let version ← tries (fun error => .error (s3SwapError object expected error))
      (compareAndSwapText readings object.storagePath expected data)
    pure (some version)

def s3Replace (object : ObjectRef) (data : Bytes) : S3Route (Option Text) := do
  s3Tries (uploadBytes object.storagePath data)
  pure none

def s3Write (object : ObjectRef) (data : Bytes) : PutMode → S3Route (Option Text)
  | .createOnly => s3Create object data
  | .ifMatch expected => s3Swap readings object data expected
  | .unconditional => s3Replace object data

def s3Land (object : ObjectRef) (data : Bytes) (metadata : Metadata) (etag : Option Text) :
    S3Route (Except S3Error Text) := do
  s3Tries (setMetadata object.storagePath metadata)
  let etag ← match etag with
    | some version => pure version
    | none => s3Etag readings object.storagePath data
  return .ok etag

def s3PutObject (request : S3PutRequest) : S3Route (Except S3Error Text) := do
  let (object, data) ← ofExcept (request.admitted.mapError .error)
  let metadata ← ofExcept ((writeMetadata object (declaredType request.headers)
    (userMetadata request.headers)).mapError .error)
  s3Tries storageWriteGuard
  let mode ← ofExcept ((putMode request.headers).mapError .error)
  let etag ← s3Write readings object data mode
  s3Land readings object data metadata etag

end S3Put

end Stado.ObjectApi
