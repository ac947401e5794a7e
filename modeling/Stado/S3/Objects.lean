import Stado.Library.Machine
import Stado.Library.VersionedStore

/-!
# Objects through the S3 API

GetObject, PutObject, CopyObject and DeleteObject as the storage calls each of
them makes, one call a step. The ETag of an object whose bytes are text is the
version its backend gives it, read by a call of its own; that of any other
object is the digest of its bytes.
-/

namespace Stado.S3

open CasStore

/-! ## The store -/

abbrev Bytes := List UInt8

structure Blob where
  bytes : Bytes
  updated : ℕ
deriving DecidableEq

/-- The statement that wrote an object; a swap with the version it expected. -/
inductive Site where
  | uploaded | created | swapped (expected : String) | copied | deleted
deriving DecidableEq

abbrev Objects := Store String Blob Site

/-- What a backend makes of objects: the version it gives the write of given
number and bytes, which names the write or at least its bytes, and the readings
of bytes the API asks for. -/
structure Backing where
  token : ℕ → Bytes → String
  names : ∀ v bytes w other, token v bytes = token w other → v = w ∨ bytes = other
  utf8 : Bytes → Bool
  sha256 : Bytes → String

/-! ## Refusals and preconditions -/

structure S3Error where
  status : ℕ
  code : String
  message : String
deriving DecidableEq

def S3Error.invalid (message : String) : S3Error := ⟨400, "InvalidArgument", message⟩
def S3Error.notImplemented (message : String) : S3Error := ⟨501, "NotImplemented", message⟩
def S3Error.storage : S3Error := ⟨500, "InternalError", "the store did not answer"⟩
def S3Error.preconditionFailed (message : String) : S3Error := ⟨412, "PreconditionFailed", message⟩

def S3Error.noSuchKey (path : String) : S3Error := ⟨404, "NoSuchKey", s!"{path} is absent"⟩

/-- The preconditions one request sets on an object. -/
structure Preconditions where
  matching : Option String
  notMatching : Option String
  modifiedSince : Option ℕ
  unmodifiedSince : Option ℕ

namespace Preconditions

def namesEtag (conditions : Preconditions) : Bool :=
  conditions.matching.isSome || conditions.notMatching.isSome

/-- A failed `If-None-Match` or `If-Modified-Since` on a read is answered 304,
every other failure 412. -/
def check (conditions : Preconditions) (etag : String) (updated : ℕ) (read : Bool) :
    Except S3Error Unit := do
  let unchanged (what : String) : S3Error :=
    if read then ⟨304, "NotModified", what⟩ else .preconditionFailed what
  if conditions.matching.any fun expected => expected ≠ "*" && expected ≠ etag then
    .error (.preconditionFailed s!"the object's ETag is {etag}")
  if conditions.unmodifiedSince.any fun since => since < updated then
    .error (.preconditionFailed s!"the object changed at {updated}")
  if conditions.notMatching.any fun refused => refused = "*" || refused = etag then
    .error (unchanged s!"the object's ETag is {etag}")
  if conditions.modifiedSince.any fun since => updated ≤ since then
    .error (unchanged "the object has not changed")

end Preconditions

/-! ## Requests -/

/-- A GetObject, or a HeadObject. `range` reads the range header for an object
of given length. -/
structure GetRequest where
  path : String
  head : Bool
  conditions : Preconditions
  range : Option (ℕ → Option (ℕ × ℕ))

inductive PutMode where
  | unconditional
  | createOnly
  | ifMatch (expected : String)
deriving DecidableEq

def unquoted (value : String) : String :=
  let trim (p : Char → Bool) (text : List Char) := ((text.dropWhile p).reverse.dropWhile p).reverse
  String.ofList (trim (· = '"') (trim Char.isWhitespace value.toList))

/-- The write that `If-None-Match` and `If-Match` ask for. -/
def putMode (ifNoneMatch ifMatch : Option String) : Except S3Error PutMode :=
  match ifNoneMatch, ifMatch with
  | some _, some _ =>
    .error (.invalid "If-None-Match and If-Match name two different writes; send one")
  | some other, none =>
    if other = "*" then .ok .createOnly
    else .error (.notImplemented
      s!"If-None-Match {other} on a write is not served; only * (create only) is")
  | none, some expected => .ok (.ifMatch (unquoted expected))
  | none, none => .ok .unconditional

structure CopyRequest where
  source : String
  target : String
  replace : Bool
  conditions : Preconditions

inductive Request where
  | get (request : GetRequest)
  | put (path : String) (data : Bytes) (ifNoneMatch ifMatch : Option String)
  | copy (request : CopyRequest)
  | delete (path : String)

/-- A successful answer. An object's body is the range of its bytes. -/
inductive Answer where
  | object (path : String) (bytes : Bytes) (range : Option (ℕ × ℕ)) (etag : String)
  | described (path : String) (length : ℕ) (etag : String)
  | stored (path : String) (data : Bytes) (etag : String)
  | copied (path : String) (etag : String) (modified : Option ℕ)
  | deleted (path : String)

def GetRequest.answer (request : GetRequest) (bytes : Bytes) (updated : ℕ) (etag : String) :
    Except S3Error Answer := do
  request.conditions.check etag updated true
  let range ← match request.range with
    | none => .ok none
    | some parse =>
      match parse bytes.length with
      | none => .error (⟨416, "InvalidRange", "not one satisfiable range of the " ++
          s!"{bytes.length}-byte object"⟩ : S3Error)
      | some range => .ok (some range)
  if request.head then .ok (.described request.path bytes.length etag)
  else .ok (.object request.path bytes range etag)

/-! ## The steps of a request -/

/-- Where a request stands, by the call it makes next. -/
inductive Phase where
  | idle
  | get (request : GetRequest)
  | read (request : GetRequest) (bytes : Bytes)
  | statted (request : GetRequest) (bytes : Bytes) (updated : ℕ)
  | put (path : String) (data : Bytes) (mode : PutMode)
  | written (path : String) (data : Bytes) (version : Option String)
  | labelled (path : String) (data : Bytes) (version : Option String)
  | copy (request : CopyRequest)
  | sourceStatted (request : CopyRequest) (updated : ℕ)
  | sourceRead (request : CopyRequest) (updated : ℕ) (bytes : Bytes)
  | sourceUnread (request : CopyRequest)
  | sourceHeld (request : CopyRequest) (bytes : Bytes)
  | copied (target : String) (bytes : Bytes)
  | copyLabelled (target : String) (bytes : Bytes)
  | copyTagged (target : String) (etag : String)
  | delete (path : String)
  | ended (outcome : Except S3Error Answer)

structure World where
  objects : Objects
  phases : ℕ → Phase

namespace World

/-- The objects there are, and nobody's request under way. -/
def start (objects : List (String × Blob)) : World :=
  ⟨objects.map fun object => ⟨object.1, some object.2, .uploaded, 0⟩, fun _ => .idle⟩

def move (w : World) (id : ℕ) (phase : Phase) : World :=
  { w with phases := Function.update w.phases id phase }

def fail (w : World) (id : ℕ) (error : S3Error) : World := w.move id (.ended (.error error))

/-- An accepted write, and the phase its request is in then. -/
def write (w : World) (id : ℕ) (path : String) (content : Option Blob) (site : Site)
    (phase : Phase) : World :=
  { w with objects := ⟨path, content, site, id⟩ :: w.objects }.move id phase

end World

/-- What a request does before its first storage call. -/
def Request.begin (backing : Backing) : Request → Phase
  | .get request => .get request
  | .put path data ifNoneMatch ifMatch =>
    match putMode ifNoneMatch ifMatch with
    | .error error => .ended (.error error)
    | .ok mode =>
      match mode with
      | .ifMatch _ =>
        if backing.utf8 data then .put path data mode
        else .ended (.error (.notImplemented ("a conditional replace of a binary object " ++
          "is not served: the store versions text objects only")))
      | .unconditional | .createOnly => .put path data mode
  | .copy request => .copy request
  | .delete path => .delete path

/-- The ETag of the object at `path` holding `bytes`, unquoted. -/
def s3Etag (backing : Backing) (objects : Objects) (path : String) (bytes : Bytes) :
    Except S3Error String :=
  if !backing.utf8 bytes then .ok (backing.sha256 bytes)
  else
    match objects.get path with
    | none => .error ⟨409, "OperationAborted",
        s!"{path} was removed while it was read; repeat the request"⟩
    | some (blob, v) =>
      if backing.utf8 blob.bytes then .ok (backing.token v blob.bytes) else .error .storage

/-- The copy after its source's preconditions held, with the bytes if checking
them read any. -/
def CopyRequest.checked (request : CopyRequest) (read : Option Bytes) : Phase :=
  if request.source = request.target ∧ !request.replace then
    .ended (.error ⟨400, "InvalidRequest", "this copy request is illegal because it copies an " ++
      "object to itself without changing its metadata; send x-amz-metadata-directive: REPLACE"⟩)
  else
    match read with
    | some bytes => .sourceHeld request bytes
    | none => .sourceUnread request

/-- The next storage call of a request, made at `now`. -/
def advance (backing : Backing) (w : World) (id now : ℕ) : Option World :=
  match w.phases id with
  | .idle | .ended _ => none
  | .get request =>
    match w.objects.get request.path with
    | none => some (w.fail id (.noSuchKey request.path))
    | some (blob, _) => some (w.move id (.read request blob.bytes))
  | .read request bytes =>
    match w.objects.get request.path with
    | none => some (w.fail id (.noSuchKey request.path))
    | some (blob, _) => some (w.move id (.statted request bytes blob.updated))
  | .statted request bytes updated =>
    some (w.move id (.ended ((s3Etag backing w.objects request.path bytes).bind
      (request.answer bytes updated))))
  | .put path data .unconditional =>
    some (w.write id path (some ⟨data, now⟩) .uploaded (.written path data none))
  | .put path data .createOnly =>
    match w.objects.get path with
    | some _ => some (w.fail id (.preconditionFailed
        s!"{path} exists, and the write was create-only (If-None-Match: *)"))
    | none => some (w.write id path (some ⟨data, now⟩) .created (.written path data none))
  | .put path data (.ifMatch expected) =>
    if expected = "" then some (w.fail id .storage)
    else
      match w.objects.get path with
      | none => some (w.fail id (.noSuchKey path))
      | some (blob, v) =>
        if backing.token v blob.bytes = expected then
          some (w.write id path (some ⟨data, now⟩) (.swapped expected)
            (.written path data (some (backing.token w.objects.length data))))
        else some (w.fail id (.preconditionFailed s!"{path} is no longer at ETag {expected}"))
  | .written path data version => some (w.move id (.labelled path data version))
  | .labelled path data (some version) => some (w.move id (.ended (.ok (.stored path data version))))
  | .labelled path data none =>
    some (w.move id (.ended ((s3Etag backing w.objects path data).map (.stored path data))))
  | .copy request =>
    match w.objects.get request.source with
    | none => some (w.fail id (.noSuchKey request.source))
    | some (blob, _) =>
      if request.conditions.namesEtag then
        some (w.move id (.sourceStatted request blob.updated))
      else
        match request.conditions.check "" blob.updated false with
        | .error error => some (w.fail id error)
        | .ok () => some (w.move id (request.checked none))
  | .sourceStatted request updated =>
    match w.objects.get request.source with
    | none => some (w.fail id (.noSuchKey request.source))
    | some (blob, _) => some (w.move id (.sourceRead request updated blob.bytes))
  | .sourceRead request updated bytes =>
    match (s3Etag backing w.objects request.source bytes).bind
      fun etag => request.conditions.check etag updated false with
    | .error error => some (w.fail id error)
    | .ok () => some (w.move id (request.checked (some bytes)))
  | .sourceUnread request =>
    match w.objects.get request.source with
    | none => some (w.fail id (.noSuchKey request.source))
    | some (blob, _) => some (w.move id (.sourceHeld request blob.bytes))
  | .sourceHeld request bytes =>
    some (w.write id request.target (some ⟨bytes, now⟩) .copied (.copied request.target bytes))
  | .copied target bytes => some (w.move id (.copyLabelled target bytes))
  | .copyLabelled target bytes =>
    match s3Etag backing w.objects target bytes with
    | .error error => some (w.fail id error)
    | .ok etag => some (w.move id (.copyTagged target etag))
  | .copyTagged target etag =>
    some (w.move id (.ended (.ok
      (.copied target etag ((w.objects.get target).map fun held => held.1.updated)))))
  | .delete path =>
    match w.objects.get path with
    | none => some (w.move id (.ended (.ok (.deleted path))))
    | some _ => some (w.write id path none .deleted (.ended (.ok (.deleted path))))

/-- A request arrives, makes its next call, or makes it and loses the answer,
before or after its effect. -/
inductive Event where
  | arrive (id : ℕ) (request : Request)
  | advance (id now : ℕ)
  | refuse (id : ℕ)
  | lose (id now : ℕ)

def step (backing : Backing) (w : World) : Event → Option World
  | .arrive id request =>
    match w.phases id with
    | .idle => some (w.move id (request.begin backing))
    | _ => none
  | .advance id now => advance backing w id now
  | .refuse id =>
    match w.phases id with
    | .idle | .ended _ => none
    | _ => some (w.fail id .storage)
  | .lose id now => (advance backing w id now).map fun w' => w'.fail id .storage

end Stado.S3
