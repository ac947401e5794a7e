import Mathlib.Algebra.Group.Nat.Defs
import Stado.ObjectApi.Writes
import Stado.S3.Scans

/-!
# Composing an object from staged chunks

`POST /api/object/compose`: what a composition request is checked against, and
the publication itself, which assembles the chunks, lands the object with its
metadata and clears the staging prefix.
-/

namespace Stado.ObjectApi

open Store

open S3 (ObjectRef)
open Sigv4 (Text Bytes)
open Directory (isControl isDigit contains debug)
open Checks (require)
open Trials (Trial)
open Trials.Trial (tries ofExcept each)

/-! ## Staged parts -/

def chunkBytes : ℕ := 3 * 1024 * 1024

def uploadPartMarker : Text := ".__stado_upload/".toList

/-- The index at its padded width. -/
def uploadPartName (index : ℕ) : Text := (Nat.toDigits 10 index).leftpad 8 '0'

def decimal (name : Text) : ℕ := name.foldl (fun n c => 10 * n + (c.toNat - '0'.toNat)) 0

def isUploadPartName (name : Text) : Bool :=
  name ≠ [] && name.all isDigit && decimal name < 2 ^ 32 && uploadPartName (decimal name) = name

/-- A name the uploader has given a part, at the width it pads to now or before. -/
def isStagedPartName (name : Text) : Bool :=
  isUploadPartName name ||
    (name ≠ [] && name.length < (uploadPartName 0).length && name.all isDigit)

def splitMarker (marker : Text) : Text → Option (Text × Text)
  | [] => if marker = [] then some ([], []) else none
  | c :: rest =>
    if marker.isPrefixOf (c :: rest) then some ([], (c :: rest).drop marker.length)
    else (splitMarker marker rest).map fun found => (c :: found.1, found.2)

def isLowerHex (c : Char) : Bool := isDigit c || ('a' ≤ c && c ≤ 'f')

def isDigestText (text : Text) : Bool := text.length = 64 && text.all isLowerHex

def releaseUploadTargetKey (key : Text) : Option Text :=
  match splitMarker uploadPartMarker key with
  | none => none
  | some (target, suffix) =>
    match suffix.splitOn '/' with
    | [uploadId, chunkIndex] =>
      if target ≠ [] ∧ isDigestText uploadId ∧ isStagedPartName chunkIndex then some target
      else none
    | _ => none

/-! ## Requests and answers -/

structure ObjectComposeChunk where
  uri : Text
  size : ℕ
  sha256 : Text

structure ObjectComposeRequest where
  uri : Text
  contentType : Text
  ifAbsent : Bool
  metadata : Metadata
  uploadId : Text
  size : ℕ
  chunks : List ObjectComposeChunk

/-- An answer, or an answer in the envelope that keeps its status from an
intermediary. -/
inductive ComposeResponse where
  | plain (response : Response)
  | enveloped (response : Response)
deriving DecidableEq

def ComposeResponse.succeeded : ComposeResponse → Bool
  | .plain response => response.succeeded
  | .enveloped response => response.succeeded

def composeError (status : ℕ) (message : Text) : ComposeResponse :=
  .enveloped ⟨status, [("error".toList, message)]⟩

/-- One chunk of a checked composition. -/
structure StagedChunk where
  object : ObjectRef
  size : ℕ
  digest : Text

/-- A checked composition. -/
structure Composition where
  object : ObjectRef
  contentType : Text
  ifAbsent : Bool
  metadata : Metadata
  uploadId : Text
  size : ℕ
  chunks : List StagedChunk

/-! ## What a request is checked against -/

def parseSha256 (value : Text) : Except Text Text :=
  let quoted := (debug (String.ofList value)).toList
  if value.all isLowerHex = false then
    .error (quoted ++ " holds a character that is not a lowercase hex digit".toList)
  else if value.length % 2 = 1 then .error (quoted ++ ": Odd number of digits".toList)
  else if value.length ≠ 64 then .error (quoted ++ ": Invalid string length".toList)
  else .ok value

def parseName (value : Text) : Except Text ObjectRef :=
  (ObjectRef.parse value).mapError fun error => error.text.toList

def indexText (index : ℕ) : Text := Nat.toDigits 10 index

def partName (index : ℕ) : Text :=
  if index < 2 ^ 32 then uploadPartName index else indexText index

def checkChunk (object : ObjectRef) (uploadId : Text) (index remaining : ℕ)
    (chunk : ObjectComposeChunk) : Except ComposeResponse StagedChunk := do
  let expected := min remaining chunkBytes
  require (chunk.size = expected) (composeError 400 ("chunk ".toList ++ indexText index ++
    " must declare exactly ".toList ++ indexText expected ++ " bytes".toList))
  let digest ← (parseSha256 chunk.sha256).mapError fun error =>
    composeError 400 ("chunk ".toList ++ indexText index ++
      " sha256 must be a lowercase SHA-256 digest: ".toList ++ error)
  let staged ← (parseName chunk.uri).mapError fun error =>
    composeError 400 ("invalid chunk ".toList ++ indexText index ++ " uri: ".toList ++ error)
  require (staged.display = chunk.uri ∧ staged.nameSpace = object.nameSpace ∧
      staged.key = object.key ++ uploadPartMarker ++ uploadId ++ '/' :: partName index)
    (composeError 400
      ("chunk ".toList ++ indexText index ++ " is outside the target upload".toList))
  return ⟨staged, chunk.size, digest⟩

def checkChunks (object : ObjectRef) (uploadId : Text) :
    ℕ → ℕ → List ObjectComposeChunk → Except ComposeResponse (List StagedChunk)
  | _, _, [] => .ok []
  | index, remaining, chunk :: rest => do
      let first ← checkChunk object uploadId index remaining chunk
      let later ← checkChunks object uploadId (index + 1) (remaining - chunk.size) rest
      return first :: later

def validContentType (headLimit : ℕ) (contentType : Text) : Bool :=
  contentType ≠ [] && (Sigv4.utf8 contentType).length ≤ headLimit && !contentType.any isControl

def checkRequest (headLimit : ℕ) (payload : ObjectComposeRequest) :
    Except ComposeResponse Composition := do
  let object ← (parseName payload.uri).mapError (composeError 400)
  require (object.display = payload.uri)
    (composeError 400 "composition uri must use the canonical stado:// form".toList)
  require (contains uploadPartMarker object.key = false)
    (composeError 400 "a staged upload cannot be a composition target".toList)
  require (validContentType headLimit payload.contentType = true)
    (composeError 400 "invalid object content type".toList)
  let uploadId ← (parseSha256 payload.uploadId).mapError fun error =>
    composeError 400 ("upload_id must be a lowercase SHA-256 digest: ".toList ++ error)
  require (payload.chunks ≠ []) (composeError 400 "composition names no chunks".toList)
  let expected := (payload.size + chunkBytes - 1) / chunkBytes
  require (payload.chunks.length = expected)
    (composeError 400 ("composition requires ".toList ++ indexText expected ++
      " contiguous chunks for ".toList ++ indexText payload.size ++ " bytes".toList))
  let chunks ← checkChunks object payload.uploadId 0 payload.size payload.chunks
  let metadata ← (mergedObjectMetadata object payload.contentType payload.metadata).mapError
    (composeError 400)
  return ⟨object, payload.contentType, payload.ifAbsent, metadata, uploadId, payload.size, chunks⟩

/-! ## Publication -/

abbrev ComposeRoute := Trial Disk StorageError ComposeResponse

def composeTries {α : Type} (call : StoreCall α) : ComposeRoute α :=
  tries (fun error => composeError 500 error.text) call

section Publish

variable (readings : Readings)

/-- The bytes found under a chunk's name, when they are the declared ones. -/
def stageChunk (chunk : StagedChunk) (found : Option Bytes) : Except ComposeResponse Bytes :=
  match found with
  | none => .error (.enveloped ⟨404, [("state".toList, "absent".toList), uriField chunk.object]⟩)
  | some bytes =>
    if bytes.length ≠ chunk.size ∨ readings.sha256 bytes ≠ chunk.digest then
      .error (composeError 422 ("stored chunk does not match ".toList ++ chunk.object.display))
    else .ok bytes

def stageChunks : List StagedChunk → ComposeRoute Bytes
  | [] => pure []
  | chunk :: rest => do
      let found ← composeTries (readBytes chunk.object.storagePath)
      let bytes ← ofExcept (stageChunk readings chunk found)
      let later ← stageChunks rest
      return bytes ++ later

def checkAssembled (composition : Composition) (assembled : Bytes) : Except ComposeResponse Unit :=
  if assembled.length ≠ composition.size then
    .error (composeError 422
      "assembled object size differs from the composition request".toList)
  else if readings.sha256 assembled ≠ composition.uploadId then
    .error (composeError 422 "assembled object SHA-256 differs from upload_id".toList)
  else .ok ()

def names (composition : Composition) (bytes : Bytes) : Prop :=
  bytes.length = composition.size ∧ readings.sha256 bytes = composition.uploadId

instance instDecidableNames (composition : Composition) (bytes : Bytes) :
    Decidable (names readings composition bytes) :=
  inferInstanceAs (Decidable (_ ∧ _))

def confirmExisting (composition : Composition) (existing : Option Bytes) :
    Except ComposeResponse Unit :=
  match existing with
  | none => .error (composeError 500 "object disappeared after create-only conflict".toList)
  | some bytes =>
    if names readings composition bytes then .ok ()
    else .error (.enveloped ⟨409, [("error".toList,
      "object exists with different content".toList), uriField composition.object]⟩)

def composeCreate (composition : Composition) (assembled : Bytes) : ComposeRoute Unit := do
  let created ← composeTries
    (uploadFileIfAbsent composition.object.storagePath assembled)
  if created = false then do
    let existing ← composeTries (readBytes composition.object.storagePath)
    ofExcept (confirmExisting readings composition existing)
  else pure ()

def isPartOf (object : ObjectRef) (path : Text) : Bool :=
  match ObjectRef.fromStoragePath path with
  | .ok candidate =>
    candidate.nameSpace = object.nameSpace &&
      releaseUploadTargetKey candidate.key = some object.key
  | .error _ => false

def stagedParts (object : ObjectRef) (names : List Text) : List Text :=
  names.filter (isPartOf object)

def partsPrefix (object : ObjectRef) : Text := object.storagePath ++ uploadPartMarker

def cleanupPaths (composition : Composition) : ComposeRoute (List Text) :=
  if composition.ifAbsent then do
    let names ← composeTries (listPaths (partsPrefix composition.object))
    return stagedParts composition.object names
  else pure (composition.chunks.map fun chunk => chunk.object.storagePath)

/-- The metadata of the composed object, the clearing of its staged parts and
the answer. -/
def finishComposition (composition : Composition) : ComposeRoute ComposeResponse := do
  composeTries (setMetadata composition.object.storagePath composition.metadata)
  let landed ← composeTries (listBlobsWithMeta composition.object.storagePath)
  ofExcept ((verifyLanded composition.object composition.metadata landed).mapError
    (composeError 500))
  let paths ← cleanupPaths composition
  each paths fun path => composeTries (deleteBlob path)
  return .enveloped ⟨200, [("state".toList, "stored".toList), uriField composition.object,
    ("content_type".toList, composition.contentType)]⟩

/-- The chunks checked and put together, under the store's fence. -/
def assembleComposition (composition : Composition) : ComposeRoute Bytes := do
  tries (fun error => .plain (storageErrorResponse error)) storageWriteGuard
  let assembled ← stageChunks readings composition.chunks
  ofExcept (checkAssembled readings composition assembled)
  return assembled

def publishAssembled (composition : Composition) (assembled : Bytes) :
    ComposeRoute ComposeResponse := do
  if composition.ifAbsent then composeCreate readings composition assembled
  else composeTries (uploadBytes composition.object.storagePath assembled)
  finishComposition composition

def publishComposition (composition : Composition) : ComposeRoute ComposeResponse := do
  let assembled ← assembleComposition readings composition
  publishAssembled readings composition assembled

end Publish

/-- A composition as it arrives: its headers, and its body read as JSON. -/
structure PostRequest where
  headers : Headers
  payload : Except Text ObjectComposeRequest

/-- Everything refused before the store is asked. `authorized` is what the
object's boundary and its writers' grants come to. -/
def admitComposition (headLimit : ℕ) (authorized : ObjectRef → Bool → Except ComposeResponse Unit)
    (request : PostRequest) : Except ComposeResponse Composition := do
  let mediaType := (header request.headers "content-type".toList).map fun value =>
    Sigv4.trim (value.takeWhile (· ≠ ';'))
  require (mediaType = some "application/json".toList)
    (composeError 415 "content-type must be application/json".toList)
  let payload ← request.payload.mapError fun error =>
    composeError 400 ("invalid object composition request: ".toList ++ error)
  let composition ← checkRequest headLimit payload
  authorized composition.object composition.ifAbsent
  return composition

def postObjectCompose (readings : Readings) (headLimit : ℕ)
    (authorized : ObjectRef → Bool → Except ComposeResponse Unit) (request : PostRequest) :
    ComposeRoute ComposeResponse := do
  let composition ← ofExcept (admitComposition headLimit authorized request)
  publishComposition readings composition

end Stado.ObjectApi
