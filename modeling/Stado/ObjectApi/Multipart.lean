import Stado.ObjectApi.Compose

/-!
# Finishing a multipart upload

S3's CompleteMultipartUpload and AbortMultipartUpload over the same staging
area as the object API's own chunked uploads.
-/

namespace Stado.ObjectApi

open S3 (ObjectRef)
open Sigv4 (Text Bytes)
open Directory (isDigit contains debug)
open Checks (require orRefuse)
open Trials.Trial (ofExcept each)

/-! ## Keys and upload ids -/

/-- Who signed a request: the namespace, the actions its policy allows on a key, and the keys of
the namespace that are governed as releases. -/
structure Signer where
  nameSpace : Text
  allows : Text → Text → Bool
  governs : Text → Bool

def quoted (text : Text) : Text := (debug (String.ofList text)).toList

def allow (signer : Signer) (key action : Text) : Except S3Error Unit :=
  require (signer.allows key action = true) ⟨403, "AccessDenied",
    "namespace ".toList ++ signer.nameSpace ++ "'s grant does not allow ".toList ++ action ++
      " on ".toList ++ quoted key ++ "; object_api.namespaces.".toList ++ signer.nameSpace ++
      ".prefix_policies declares what it allows".toList⟩

def s3Object (signer : Signer) (key : Text) : Except S3Error ObjectRef := do
  require (key.head? ≠ some '/' ∧ key.getLast? ≠ some '/') (.invalid ("the key ".toList ++
    quoted key ++
    " begins or ends with '/'; Stado object keys have no empty path segment".toList))
  require (contains uploadPartMarker key = false) (.invalid ("the key ".toList ++ quoted key ++
    " names a staged multipart part (".toList ++ uploadPartMarker ++
    "), which only the multipart operations address".toList))
  require (signer.governs key = false) ⟨403, "AccessDenied",
    "release-governed objects are published with `stado storage put` and read from ".toList ++
      "/api/release/object, not through the S3 endpoint".toList⟩
  (ObjectRef.new signer.nameSpace key).mapError fun error => .invalid error.text.toList

def noUpload (object : ObjectRef) (upload : Text) : S3Error :=
  ⟨404, "NoSuchUpload", "no multipart upload ".toList ++ upload ++ " of ".toList ++
    object.display ++ " is in progress".toList⟩

def invalidPart (message : Text) : S3Error := ⟨400, "InvalidPart", message⟩

def issuedId (upload : Text) : Except S3Error Text :=
  if isDigestText upload then .ok upload
  else .error ⟨404, "NoSuchUpload",
    quoted upload ++ " is not an upload id this endpoint issued".toList⟩

/-! ## Part numbers -/

def lastPart : ℕ := 10000

/-- The digits of a `u32` after the value of those before them. -/
def readU32 (value : ℕ) : Text → Except String ℕ
  | [] => .ok value
  | c :: later =>
    if isDigit c then
      if value * 10 + (c.toNat - '0'.toNat) < 2 ^ 32 then
        readU32 (value * 10 + (c.toNat - '0'.toNat)) later
      else .error "number too large to fit in target type"
    else .error "invalid digit found in string"

def parseNonZeroU32 (text : Text) : Except String ℕ := do
  let digits := if text.head? = some '+' then text.drop 1 else text
  require (text ≠ []) "cannot parse integer from empty string"
  require (digits ≠ []) "invalid digit found in string"
  let value ← readU32 0 digits
  require (value ≠ 0) "number would be zero for non-zero type"
  return value

def partRefusal (raw : Text) (cause : String) : S3Error :=
  .invalid ("partNumber ".toList ++ quoted raw ++ " is not 1 through ".toList ++
    indexText lastPart ++ ": ".toList ++ cause.toList)

def partNumber (raw : Text) : Except S3Error ℕ := do
  let number ← (parseNonZeroU32 (Sigv4.trim raw)).mapError (partRefusal raw)
  require (number ≤ lastPart)
    (partRefusal raw ("it is above " ++ String.ofList (indexText lastPart)))
  return number

/-! ## Where an upload is staged -/

def uploadPrefix (object : ObjectRef) (upload : Text) : Text :=
  partsPrefix object ++ upload ++ ['/']

def manifestPath (object : ObjectRef) (upload : Text) : Text :=
  uploadPrefix object upload ++ "manifest".toList

def partPath (object : ObjectRef) (upload : Text) (number : ℕ) : Text :=
  uploadPrefix object upload ++ uploadPartName number

/-- What CreateMultipartUpload recorded. -/
structure Manifest where
  contentType : Text
  metadata : Metadata

/-- One part a request states, in the order stated. -/
structure CompletedPart where
  number : Option Text
  etag : Option Text

/-- How the documents of an upload are read: its manifest's JSON, or the cause it does not
parse for, and the body of its completion, UTF-8 and XML. -/
structure Documents where
  manifest : Bytes → Except Text Manifest
  completion : Bytes → Except S3Error (List CompletedPart)

/-- A request to finish an upload: whose it is, the key and the upload it names, and what the
body's framing comes to. -/
structure CompleteRequest where
  signer : Signer
  key : Text
  upload : Text
  body : Except S3Error Bytes

/-! ## The operations -/

def orStop {α : Type} (result : Except S3Error α) : S3Route α := ofExcept (result.mapError .error)

section Complete

variable (readings : Readings) (documents : Documents)

def s3Manifest (object : ObjectRef) (upload : Text) : S3Route Manifest := do
  let found ← s3Tries (Store.readBytes (manifestPath object upload))
  let bytes ← orStop (orRefuse found (noUpload object upload))
  orStop ((documents.manifest bytes).mapError fun error => ⟨500, "InternalError",
    "the manifest of upload ".toList ++ upload ++ " of ".toList ++ object.display ++
      " does not parse: ".toList ++ error⟩)

def isQuoteMark (c : Char) : Bool := c = '"'

def statedPart (previous : Option ℕ) (part : CompletedPart) : Except S3Error (ℕ × Text) := do
  let raw ← orRefuse part.number (invalidPart "a Part names no PartNumber".toList)
  let number ← partNumber raw
  require (∀ last ∈ previous, last < number) ⟨400, "InvalidPartOrder",
    "part ".toList ++ indexText number ++ " follows part ".toList ++
      indexText (previous.getD 0) ++ "; list parts in ascending order".toList⟩
  let stated ← orRefuse part.etag
    (invalidPart ("part ".toList ++ indexText number ++ " names no ETag".toList))
  return (number, stated)

def heldPart (upload : Text) (number : ℕ) (stated : Text) (found : Option Bytes) :
    Except S3Error Bytes := do
  let bytes ← orRefuse found (invalidPart ("part ".toList ++ indexText number ++
    " of upload ".toList ++ upload ++ " was never uploaded".toList))
  require (Sigv4.trimMatches isQuoteMark (Sigv4.trim stated) = readings.sha256 bytes)
    (invalidPart ("part ".toList ++ indexText number ++ " is held at ETag ".toList ++
      readings.sha256 bytes ++ ", the request names ".toList ++ stated))
  return bytes

def readParts (object : ObjectRef) (upload : Text) : Option ℕ → List CompletedPart → S3Route Bytes
  | _, [] => pure []
  | previous, part :: rest => do
      let (number, stated) ← orStop (statedPart previous part)
      let found ← s3Tries (Store.readBytes (partPath object upload number))
      let bytes ← orStop (heldPart readings upload number stated found)
      let later ← readParts object upload (some number) rest
      return bytes ++ later

/-- An upload whose parts were read. -/
structure Composed where
  object : ObjectRef
  upload : Text
  bytes : Bytes
  metadata : Metadata

/-- Everything before the object is written. -/
def s3ReadUpload (request : CompleteRequest) : S3Route Composed := do
  orStop (allow request.signer request.key "put".toList)
  let object ← orStop (s3Object request.signer request.key)
  let upload ← orStop (issuedId request.upload)
  let manifest ← s3Manifest documents object upload
  let data ← orStop request.body
  let asked ← orStop (documents.completion data)
  let bytes ← readParts readings object upload none asked
  orStop (require (asked ≠ []) (invalidPart "the request names no part".toList))
  let metadata ← orStop (writeMetadata object manifest.contentType manifest.metadata)
  s3Tries Store.storageWriteGuard
  return ⟨object, upload, bytes, metadata⟩

def s3DiscardParts (object : ObjectRef) (upload : Text) : S3Route (List Text) := do
  let staged ← s3Tries (Store.listPaths (uploadPrefix object upload))
  each staged fun path => s3Tries (Store.deleteBlob path)
  return staged

def s3PublishUpload (composed : Composed) : S3Route (Except S3Error Text) := do
  s3Tries (Store.uploadBytes composed.object.storagePath composed.bytes)
  s3Tries (Store.setMetadata composed.object.storagePath composed.metadata)
  let _ ← s3DiscardParts composed.object composed.upload
  let etag ← s3Etag readings composed.object.storagePath composed.bytes
  return .ok etag

def s3CompleteUpload (request : CompleteRequest) : S3Route (Except S3Error Text) := do
  let composed ← s3ReadUpload readings documents request
  s3PublishUpload readings composed

end Complete

def s3AbortUpload (signer : Signer) (key upload : Text) : S3Route (Except S3Error Text) := do
  orStop (allow signer key "delete".toList)
  let object ← orStop (s3Object signer key)
  let upload ← orStop (issuedId upload)
  s3Tries Store.storageWriteGuard
  let staged ← s3DiscardParts object upload
  if staged = [] then refuse (noUpload object upload)
  else pure (.ok [])

end Stado.ObjectApi
